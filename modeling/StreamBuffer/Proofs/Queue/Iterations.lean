/-
  StreamBuffer.Proofs.Queue.Iterations

  Every iteration of the copy loop, from the first to the last.

  `Copy.after? k c` is the loop after `k` iterations. Where an iteration begins the loop is
  within its bounds, and from that alone follows all that is safe about the iteration
  (`Copy.Safe`): each slice lies within its range, each sum stays below the length that it is
  compared with, and a segment goes or a byte is copied. The bounds hold after any number of
  iterations (`WithinBounds.after?`), and the number of them is bounded by what the segments
  are good for (`le_load_of_after?`).

  The entry into the loop that finds the destination full, or no segment left, is not counted:
  it does nothing but end the loop.
-/
import StreamBuffer.Proofs.Queue.Filling

namespace StreamBuffer

namespace Copy

/-! ## One iteration -/

/-- A segment goes and no byte is copied, or bytes are copied and no segment goes. -/
def Progresses (c c' : Copy) : Prop :=
  (∃ s, c.segments = s :: c'.segments ∧ c'.copied = c.copied)
    ∨ (c'.segments.length = c.segments.length ∧ c.copied < c'.copied)

/-- What holds of the iteration that begins at `c`. Its slices are those of the head segment
    from its position on, of the bytes there up to the piece, and of the destination behind
    the bytes filled; `slices` has their ranges, and the sums that advance the two positions. -/
structure Safe (c : Copy) : Prop where
  withinBounds : c.WithinBounds
  slices : ∀ s rest, c.segments = s :: rest → c.copied < c.dst.length →
    s.pos ≤ s.data.length ∧ c.reach s ≤ s.unread.length
      ∧ c.copied + c.reach s ≤ c.dst.length ∧ s.pos + c.reach s ≤ s.data.length
  inRange : c.turn ≠ .outOfRange
  finished_iff : c.turn = .finished ↔ c.copied = c.dst.length ∨ c.segments = []
  next : ∀ c', c.turn = .next c' →
    c'.WithinBounds ∧ c'.dst.length = c.dst.length ∧ c.Progresses c'

/-- The loop ends where there is no room left, or no segment. -/
theorem turn_eq_finished_iff {c : Copy} (h : c.WithinBounds) :
    c.turn = .finished ↔ c.copied = c.dst.length ∨ c.segments = [] := by
  have hcases := turn_cases h
  constructor
  · intro hturn
    rw [hturn] at hcases
    cases hcases with
    | full hfull => exact Or.inl hfull
    | dry hdry => exact Or.inr hdry
  · rintro (hfull | hdry)
    · rw [turn, if_neg (by omega)]
    · unfold turn
      rw [hdry]
      split <;> rfl

/-- An iteration that is not the last one leaves the destination's length, and gets on. -/
theorem progresses_of_next {c c' : Copy} (h : c.WithinBounds) (hturn : c.turn = .next c') :
    c'.dst.length = c.dst.length ∧ c.Progresses c' := by
  have hcases := turn_cases h
  rw [hturn] at hcases
  cases hcases with
  | @spent s rest hsegments hroom hu => exact ⟨rfl, Or.inl ⟨s, hsegments, rfl⟩⟩
  | @copies s rest hsegments hroom hu =>
    have hlen : 0 < s.unread.length := List.length_pos_iff.mpr hu
    have hpos : 0 < c.reach s := by
      rw [reach]
      omega
    refine ⟨length_dst_taken h s rest, Or.inr ⟨?_, ?_⟩⟩
    · rw [hsegments]
      rfl
    · show c.copied < c.copied + c.reach s
      omega

/-- Within bounds an iteration is safe. -/
theorem WithinBounds.safe {c : Copy} (h : c.WithinBounds) : c.Safe where
  withinBounds := h
  slices := by
    intro s rest hsegments hroom
    have hs : s.InBounds := h.segments s (by rw [hsegments]; exact List.mem_cons_self)
    have hlen := hs.length_unread
    have hreach : c.reach s ≤ s.unread.length := Nat.min_le_left _ _
    have hfits : c.reach s ≤ c.dst.length - c.copied := Nat.min_le_right _ _
    exact ⟨hs, hreach, by omega, by omega⟩
  inRange := turn_ne_outOfRange h
  finished_iff := turn_eq_finished_iff h
  next := fun _ hturn => ⟨h.next hturn, progresses_of_next h hturn⟩

/-! ## Iterations in a row -/

/-- The loop after so many iterations, if it makes them. -/
def after? : Nat → Copy → Option Copy
  | 0, c => some c
  | k + 1, c =>
    match c.turn with
    | .next c' => after? k c'
    | .finished | .outOfRange => none

/-- A further iteration was one that led on. -/
theorem exists_next_of_after? {k : Nat} {c out : Copy} (h : after? (k + 1) c = some out) :
    ∃ c', c.turn = .next c' ∧ after? k c' = some out := by
  rw [after?] at h
  split at h
  · exact ⟨_, by assumption, h⟩
  · cases h
  · cases h

/-- Iterations keep within bounds, and the destination keeps its length. -/
theorem WithinBounds.after? {k : Nat} {c out : Copy} (h : c.WithinBounds)
    (hafter : Copy.after? k c = some out) :
    out.WithinBounds ∧ out.dst.length = c.dst.length := by
  induction k generalizing c with
  | zero =>
    obtain rfl : c = out := Option.some.inj hafter
    exact ⟨h, rfl⟩
  | succ k ih =>
    obtain ⟨c', hturn, hrest⟩ := exists_next_of_after? hafter
    obtain ⟨hbounds, hlen⟩ := ih (h.next hturn) hrest
    exact ⟨hbounds, hlen.trans (progresses_of_next h hturn).1⟩

/-- The loop makes no more iterations than its segments are good for: by induction on them,
    where the last one leaves a loop that makes none. -/
theorem le_load_of_after? {k : Nat} {c out : Copy} (h : c.WithinBounds)
    (hafter : Copy.after? k c = some out) : k ≤ load c.segments := by
  induction k generalizing c with
  | zero => exact Nat.zero_le _
  | succ k ih =>
    obtain ⟨c', hturn, hrest⟩ := exists_next_of_after? hafter
    obtain ⟨hpos, hless | hlast⟩ := load_next h hturn
    · have hle := ih (h.next hturn) hrest
      omega
    · -- the load may stay as it is only where the loop ends
      cases k with
      | zero => omega
      | succ k =>
        obtain ⟨c'', hnext, -⟩ := exists_next_of_after? hrest
        rw [hlast] at hnext
        cases hnext

/-- A loop that comes to its end does so after some number of iterations. -/
theorem exists_after?_of_finish? {turns : Nat} {c out : Copy} (h : finish? turns c = some out) :
    ∃ k, after? k c = some out ∧ out.turn = .finished := by
  induction turns generalizing c with
  | zero =>
    unfold finish? at h
    cases hturn : c.turn with
    | finished =>
      rw [hturn] at h
      obtain rfl : c = out := Option.some.inj h
      exact ⟨0, rfl, hturn⟩
    | next c' => simp [hturn] at h
    | outOfRange => simp [hturn] at h
  | succ turns ih =>
    cases hturn : c.turn with
    | finished =>
      rw [finish?_of_finished hturn] at h
      obtain rfl : c = out := Option.some.inj h
      exact ⟨0, rfl, hturn⟩
    | next c' =>
      rw [finish?_succ_of_next hturn] at h
      obtain ⟨k, hafter, hend⟩ := ih h
      refine ⟨k + 1, ?_, hend⟩
      rw [after?, hturn]
      exact hafter
    | outOfRange =>
      unfold finish? at h
      simp [hturn] at h

end Copy

namespace SegmentQueue

/-- The copy loop keeps within its bounds and ends. Over any queue that was read within
    bounds, and for any destination, every iteration that the loop comes to is safe, and there
    are no more than two of them for each segment, whatever the destination's size. After some
    of them the loop ends, with what `drainInto` says. -/
theorem copyInto_safe_and_ends {q : SegmentQueue} (h : q.InBounds) (dst : Bytes) :
    (∀ k c, Copy.after? k (q.copyInto dst) = some c →
        c.Safe ∧ c.dst.length = dst.length ∧ k ≤ 2 * q.segmentCount)
      ∧ ∃ k c, Copy.after? k (q.copyInto dst) = some c ∧ c.turn = .finished
          ∧ (c.copied, c.dst, { segments := c.segments }) = q.drainInto dst := by
  have hbounds : (q.copyInto dst).WithinBounds := ⟨h, Nat.zero_le _⟩
  refine ⟨fun k c hafter => ?_, ?_⟩
  · obtain ⟨hc, hlen⟩ := hbounds.after? hafter
    have hload := Copy.le_load_of_after? hbounds hafter
    exact ⟨hc.safe, hlen, Nat.le_trans hload (Copy.load_le q.segments)⟩
  · obtain ⟨k, hafter, hend⟩ := Copy.exists_after?_of_finish? (h.finish?_copyInto dst)
    exact ⟨k, _, hafter, hend, rfl⟩

/-- A segment read to its end, an empty one, one read in part, and one more. A destination of
    four bytes ends within the last of them, after five iterations of the eight there may be. -/
theorem copyInto_safe_and_ends_partly_read :
    let q : SegmentQueue :=
      { segments := [⟨[1, 2], 2⟩, ⟨[], 0⟩, ⟨[3, 4, 5], 1⟩, ⟨[6, 7, 8], 0⟩] }
    q.InBounds ∧ (∀ k c, Copy.after? k (q.copyInto [0, 0, 0, 0]) = some c → c.Safe ∧ k ≤ 8)
      ∧ ∃ c, Copy.after? 5 (q.copyInto [0, 0, 0, 0]) = some c ∧ c.Safe ∧ c.turn = .finished
          ∧ c.dst = [4, 5, 6, 7] ∧ c.segments = [⟨[6, 7, 8], 2⟩] := by
  intro q
  have hq : q.InBounds := by
    intro s hs
    simp only [q, List.mem_cons, List.not_mem_nil, or_false] at hs
    rcases hs with rfl | rfl | rfl | rfl <;> simp [Segment.InBounds]
  obtain ⟨hsafe, -⟩ := copyInto_safe_and_ends hq [0, 0, 0, 0]
  refine ⟨hq, fun k c hafter => ?_, ?_⟩
  · obtain ⟨hc, -, hk⟩ := hsafe k c hafter
    exact ⟨hc, hk⟩
  · let c : Copy := { segments := [⟨[6, 7, 8], 2⟩], dst := [4, 5, 6, 7], copied := 4 }
    have hfive : Copy.after? 5 (q.copyInto [0, 0, 0, 0]) = some c := by decide
    exact ⟨c, hfive, (hsafe 5 c hfive).1, by decide, rfl, rfl⟩

end SegmentQueue

end StreamBuffer
