/-
  StreamBuffer.Proofs.Queue.Bounds

  The copy loop keeps within its bounds and comes to an end.

  The invariant is that no segment was read beyond its end and that no more of the
  destination is filled than there is (`Copy.WithinBounds`). `Copy.turn_cases` says
  once what an iteration then does: it is the last one, or it gives an exhausted
  segment up, or it copies; it never leaves its bounds. The loop ends after two
  iterations for each segment at most (`exists_finish?`): a segment is copied from
  once and then given up, but for the one that fills the destination.
-/
import StreamBuffer.Queue.Copy

namespace StreamBuffer

/-! ## Read positions -/

/-- No segment was read beyond its end. -/
def SegmentQueue.InBounds (q : SegmentQueue) : Prop := ∀ s ∈ q.segments, s.InBounds

theorem Segment.InBounds.length_unread {s : Segment} (h : s.InBounds) :
    s.pos + s.unread.length = s.data.length := by
  rw [InBounds] at h
  rw [unread, List.length_drop]
  omega

theorem Segment.InBounds.advance {s : Segment} (h : s.InBounds) {n : Nat}
    (hn : n ≤ s.unread.length) : (s.advance n).InBounds := by
  have hlen := h.length_unread
  show s.pos + n ≤ s.data.length
  omega

theorem Segment.inBounds_drain (room : Nat) (segments : List Segment)
    (h : ∀ s ∈ segments, s.InBounds) : ∀ s ∈ (Segment.drain room segments).2, s.InBounds := by
  fun_induction Segment.drain room segments with
  | case1 => exact h
  | case2 => exact h
  | case3 room s rest hs ih => exact ih fun x hx => h x (List.mem_cons_of_mem s hx)
  | case4 room s rest hs hle =>
    intro x hx
    rcases List.mem_cons.mp hx with rfl | hx
    · exact (h s List.mem_cons_self).advance hle
    · exact h x (List.mem_cons_of_mem s hx)
  | case5 room s rest hs hle bytes left hrec ih =>
    rw [hrec] at ih
    exact ih fun x hx => h x (List.mem_cons_of_mem s hx)

namespace SegmentQueue

theorem inBounds_ofCapacity (hint : Nat) : (ofCapacity hint).InBounds := by
  intro s hs
  cases hs

theorem InBounds.append {q : SegmentQueue} (h : q.InBounds) (chunk : Bytes) :
    (q.append chunk).InBounds := by
  intro s hs
  rcases List.mem_append.mp hs with hs | hs
  · exact h s hs
  · rw [List.mem_singleton.mp hs]
    exact Nat.zero_le _

theorem InBounds.drain {q : SegmentQueue} (h : q.InBounds) (n : Nat) : (q.drain n).2.InBounds :=
  Segment.inBounds_drain n q.segments h

end SegmentQueue

/-! ## Slices -/

theorem slice?_eq_some {bytes : Bytes} {lo hi : Nat} (hle : lo ≤ hi) (hhi : hi ≤ bytes.length) :
    slice? bytes lo hi = some ((bytes.take hi).drop lo) :=
  if_pos ⟨hle, hhi⟩

theorem overwrite?_eq_some {bytes patch : Bytes} {start : Nat}
    (h : start + patch.length ≤ bytes.length) :
    overwrite? bytes start patch
      = some (bytes.take start ++ patch ++ bytes.drop (start + patch.length)) :=
  if_pos h

/-- What is unread of a segment is a slice within its bounds. -/
theorem Segment.InBounds.slice?_eq {s : Segment} (h : s.InBounds) :
    slice? s.data s.pos s.data.length = some s.unread := by
  rw [slice?_eq_some h (Nat.le_refl _), List.take_length]
  rfl

/-! ## One iteration -/

namespace Copy

/-- No segment was read beyond its end, and no more of the destination is filled than
    there is. -/
structure WithinBounds (c : Copy) : Prop where
  segments : ∀ s ∈ c.segments, s.InBounds
  copied_le : c.copied ≤ c.dst.length

/-- The number of bytes that an iteration copies from a head segment. -/
def reach (c : Copy) (s : Segment) : Nat := min s.unread.length (c.dst.length - c.copied)

/-- The loop after an exhausted head segment was given up. -/
def giveUp (c : Copy) (rest : List Segment) : Copy := { c with segments := rest }

/-- The loop after a piece of the head segment was copied. -/
def taken (c : Copy) (s : Segment) (rest : List Segment) : Copy where
  segments := s.advance (c.reach s) :: rest
  dst := c.dst.take c.copied ++ s.unread.take (c.reach s)
    ++ c.dst.drop (c.copied + c.reach s)
  copied := c.copied + c.reach s

/-- What an iteration does: it is the last one, or gives up a segment, or copies. -/
inductive Turns (c : Copy) : Turn → Prop where
  | full (h : c.copied = c.dst.length) : Turns c .finished
  | dry (h : c.segments = []) : Turns c .finished
  | spent {s : Segment} {rest : List Segment} (hsegments : c.segments = s :: rest)
      (hroom : c.copied < c.dst.length) (h : s.unread = []) : Turns c (.next (c.giveUp rest))
  | copies {s : Segment} {rest : List Segment} (hsegments : c.segments = s :: rest)
      (hroom : c.copied < c.dst.length) (h : s.unread ≠ []) : Turns c (.next (c.taken s rest))

/-- Within bounds these are all the cases; no slice leaves its bounds. -/
theorem turn_cases {c : Copy} (h : c.WithinBounds) : c.Turns c.turn := by
  by_cases hroom : c.copied < c.dst.length
  · cases hsegments : c.segments with
    | nil =>
      rw [turn, if_pos hroom, hsegments]
      exact .dry hsegments
    | cons s rest =>
      have hs : s.InBounds := h.segments s (by rw [hsegments]; exact List.mem_cons_self)
      cases hu : s.unread with
      | nil =>
        have hturn : c.turn = .next (c.giveUp rest) := by
          simp only [turn, if_pos hroom, hsegments, hs.slice?_eq, hu, giveUp]
        rw [hturn]
        exact .spent hsegments hroom hu
      | cons x xs =>
        -- the piece is a slice of what is unread, and it fits in behind what is filled
        have hreach : c.reach s ≤ s.unread.length := Nat.min_le_left _ _
        have hfits : c.copied + c.reach s ≤ c.dst.length := by
          rw [reach]
          omega
        have hpiece : slice? s.unread 0 (c.reach s) = some (s.unread.take (c.reach s)) :=
          slice?_eq_some (Nat.zero_le _) hreach
        have hlen : (s.unread.take (c.reach s)).length = c.reach s :=
          List.length_take_of_le hreach
        have hdst : overwrite? c.dst c.copied (s.unread.take (c.reach s))
            = some (c.taken s rest).dst := by
          rw [overwrite?_eq_some (by rw [hlen]; exact hfits), hlen]
          rfl
        have hturn : c.turn = .next (c.taken s rest) := by
          rw [taken, reach, hu] at hdst
          rw [reach, hu] at hpiece
          simp only [turn, if_pos hroom, hsegments, hs.slice?_eq, hu, hpiece, hdst, taken, reach]
        rw [hturn]
        exact .copies hsegments hroom (by rw [hu]; exact List.cons_ne_nil x xs)
  · have hfull : c.copied = c.dst.length := by
      have hle := h.copied_le
      omega
    rw [turn, if_neg hroom]
    exact .full hfull

theorem turn_ne_outOfRange {c : Copy} (h : c.WithinBounds) : c.turn ≠ .outOfRange := by
  intro hturn
  have hcases := turn_cases h
  rw [hturn] at hcases
  cases hcases

theorem length_dst_taken {c : Copy} (h : c.WithinBounds) (s : Segment) (rest : List Segment) :
    (c.taken s rest).dst.length = c.dst.length := by
  have hle := h.copied_le
  have hreach : c.reach s ≤ s.unread.length := Nat.min_le_left _ _
  have hroom : c.reach s ≤ c.dst.length - c.copied := Nat.min_le_right _ _
  simp only [taken, List.length_append, List.length_take, List.length_drop]
  omega

/-- An iteration keeps within its bounds. -/
theorem WithinBounds.next {c c' : Copy} (h : c.WithinBounds) (hturn : c.turn = .next c') :
    c'.WithinBounds := by
  have hcases := turn_cases h
  rw [hturn] at hcases
  cases hcases with
  | spent hsegments hroom hu =>
    refine ⟨?_, h.copied_le⟩
    intro x hx
    exact h.segments x (by rw [hsegments]; exact List.mem_cons_of_mem _ hx)
  | @copies s rest hsegments hroom hu =>
    refine ⟨?_, ?_⟩
    · intro x hx
      rcases List.mem_cons.mp hx with rfl | hx
      · have hs : s.InBounds := h.segments s (by rw [hsegments]; exact List.mem_cons_self)
        exact hs.advance (Nat.min_le_left _ _)
      · exact h.segments x (by rw [hsegments]; exact List.mem_cons_of_mem _ hx)
    · rw [length_dst_taken h]
      show c.copied + c.reach s ≤ c.dst.length
      rw [reach]
      omega

/-! ## The whole loop -/

theorem finish?_of_finished {c : Copy} (h : c.turn = .finished) (turns : Nat) :
    finish? turns c = some c := by
  unfold finish?
  rw [h]

theorem finish?_succ_of_next {c c' : Copy} (h : c.turn = .next c') (turns : Nat) :
    finish? (turns + 1) c = finish? turns c' := by
  conv => lhs; unfold finish?
  rw [h]

/-- The number of iterations that the segments are good for: an exhausted one is given
    up, any other one is copied from before. -/
def load : List Segment → Nat
  | [] => 0
  | s :: rest => (if s.unread = [] then 1 else 2) + load rest

theorem load_cons (s : Segment) (rest : List Segment) :
    load (s :: rest) = (if s.unread = [] then 1 else 2) + load rest := rfl

theorem load_le (segments : List Segment) : load segments ≤ 2 * segments.length := by
  induction segments with
  | nil => exact Nat.le_refl 0
  | cons s rest ih =>
    rw [load_cons, List.length_cons]
    split <;> omega

theorem load_pos {s : Segment} {segments rest : List Segment} (h : segments = s :: rest) :
    0 < load segments := by
  rw [h, load_cons]
  split <;> omega

/-- An iteration leaves less to do, or it was the last one: a copy leaves the head segment
    exhausted, and so good for one iteration less, or fills the destination. -/
theorem load_next {c c' : Copy} (h : c.WithinBounds) (hturn : c.turn = .next c') :
    0 < load c.segments ∧ (load c'.segments < load c.segments ∨ c'.turn = .finished) := by
  have hcases := turn_cases h
  rw [hturn] at hcases
  cases hcases with
  | @spent s rest hsegments hroom hu =>
    refine ⟨load_pos hsegments, Or.inl ?_⟩
    show load rest < load c.segments
    rw [hsegments, load_cons, if_pos hu]
    omega
  | @copies s rest hsegments hroom hu =>
    refine ⟨load_pos hsegments, ?_⟩
    by_cases hall : s.unread.length ≤ c.dst.length - c.copied
    · -- the whole segment was copied
      have hspent : (s.advance (c.reach s)).unread = [] := by
        rw [Segment.unread_advance]
        exact List.drop_of_length_le (by rw [reach]; omega)
      left
      show load (s.advance (c.reach s) :: rest) < load c.segments
      rw [hsegments, load_cons, load_cons, if_neg hu, if_pos hspent]
      omega
    · -- the destination is full
      have hfull : ¬ (c.taken s rest).copied < (c.taken s rest).dst.length := by
        rw [length_dst_taken h]
        show ¬ c.copied + c.reach s < c.dst.length
        rw [reach]
        omega
      right
      rw [turn, if_neg hfull]

/-- By induction on the iterations that are granted. -/
theorem exists_finish?_of_load_le {turns : Nat} {c : Copy} (h : c.WithinBounds)
    (hload : load c.segments ≤ turns) : ∃ out, finish? turns c = some out := by
  induction turns generalizing c with
  | zero =>
    cases hturn : c.turn with
    | finished => exact ⟨c, finish?_of_finished hturn 0⟩
    | outOfRange => exact absurd hturn (turn_ne_outOfRange h)
    | next c' =>
      obtain ⟨hpos, -⟩ := load_next h hturn
      omega
  | succ turns ih =>
    cases hturn : c.turn with
    | finished => exact ⟨c, finish?_of_finished hturn _⟩
    | outOfRange => exact absurd hturn (turn_ne_outOfRange h)
    | next c' =>
      rw [finish?_succ_of_next hturn]
      rcases (load_next h hturn).2 with hless | hlast
      · exact ih (h.next hturn) (by omega)
      · exact ⟨c', finish?_of_finished hlast turns⟩

/-- The loop ends after at most two iterations for each segment, and none of them
    leaves its bounds. -/
theorem exists_finish? {c : Copy} (h : c.WithinBounds) :
    ∃ out, finish? (2 * c.segments.length) c = some out :=
  exists_finish?_of_load_le h (load_le c.segments)

end Copy

end StreamBuffer
