/-
  StreamBuffer.Proofs.Reader.Progress

  What a reader does to the state it runs on, however many pieces it takes.

  Three facts hold of every run of a reader, and each is first a fact about one
  look at the queue:

    * nothing but the queue changes (`proceed_control`);
    * the bytes that went to the reader, followed by the bytes still unread, are
      the bytes that were unread before (`proceed_copied_append_unread`);
    * a reader that waits found no byte, neither flag set, and room for more in
      its destination (`stuck_of_proceed`).
-/
import StreamBuffer.Buffer.Reader

namespace StreamBuffer

/-! ## The state but for its queue -/

namespace BufferState

/-- The state with its queue blanked out: all that a reader leaves alone. -/
def control (s : BufferState) : BufferState := { s with queue := {} }

@[simp] theorem control_closed (s : BufferState) : s.control.closed = s.closed := rfl

@[simp] theorem control_deadlineReached (s : BufferState) :
    s.control.deadlineReached = s.deadlineReached := rfl

@[simp] theorem control_timer (s : BufferState) : s.control.timer = s.timer := rfl

@[simp] theorem control_generation (s : BufferState) : s.control.generation = s.generation := rfl

@[simp] theorem control_with_queue (s : BufferState) (q : SegmentQueue) :
    ({ s with queue := q } : BufferState).control = s.control := rfl

/-- States that agree but for their queues have the same flags, timer and
    generation. -/
theorem fields_of_control_eq {s t : BufferState} (h : s.control = t.control) :
    s.closed = t.closed ∧ s.deadlineReached = t.deadlineReached ∧ s.timer = t.timer
      ∧ s.generation = t.generation := by
  have hclosed : s.closed = t.closed := by
    rw [← control_closed s, h, control_closed]
  have hreached : s.deadlineReached = t.deadlineReached := by
    rw [← control_deadlineReached s, h, control_deadlineReached]
  have htimer : s.timer = t.timer := by
    rw [← control_timer s, h, control_timer]
  have hgeneration : s.generation = t.generation := by
    rw [← control_generation s, h, control_generation]
  exact ⟨hclosed, hreached, htimer, hgeneration⟩

/-! ## One look at the queue -/

theorem attempt_control (s : BufferState) (n : Nat) : (s.attempt n).2.control = s.control := by
  rw [attempt_eq]
  exact control_with_queue s _

theorem enter_control (s : BufferState) (n : Nat) : (s.enter n).2.control = s.control := by
  rw [enter]
  split
  · rfl
  · exact attempt_control s n

/-- An attempt that takes nothing found nothing to take. -/
theorem bytes_verdict (s : BufferState) (n : Nat) (bytes : Bytes) :
    (s.verdict n bytes).bytes = bytes := by
  rw [verdict]
  split
  · rfl
  · rename_i h
    -- the first branch was not taken, so that the bytes to show are none
    have hnil : bytes = [] := by
      rw [not_or] at h
      exact Classical.not_not.mp h.2
    subst hnil
    split
    · rfl
    · split <;> rfl

/-- No byte is lost between the reader and the queue. -/
theorem attempt_bytes_append_unread (s : BufferState) (n : Nat) :
    (s.attempt n).1.bytes ++ (s.attempt n).2.queue.unread = s.queue.unread := by
  rw [attempt_eq]
  show (s.verdict n (s.queue.unread.take n)).bytes ++ (s.queue.drain n).2.unread = _
  rw [bytes_verdict, SegmentQueue.unread_drain, List.take_append_drop]

theorem enter_bytes_append_unread (s : BufferState) (n : Nat) :
    (s.enter n).1.bytes ++ (s.enter n).2.queue.unread = s.queue.unread := by
  rw [enter]
  split
  · rfl
  · exact attempt_bytes_append_unread s n

/-- An attempt comes to nothing only for a destination with room, at an empty
    queue, while neither flag is set. -/
theorem attempt_eq_nothing_iff (s : BufferState) (n : Nat) :
    (s.attempt n).1 = .nothing ↔
      0 < n ∧ s.queue.unread = [] ∧ s.closed = false ∧ s.deadlineReached = false := by
  rw [attempt_eq]
  show s.verdict n (s.queue.unread.take n) = .nothing ↔ _
  rw [verdict]
  by_cases hn : n = 0
  · simp [hn]
  · have hpos : 0 < n := by omega
    by_cases hu : s.queue.unread = []
    · -- at an empty queue the flags decide
      cases hc : s.closed <;> cases hd : s.deadlineReached <;> simp [hn, hu, hpos]
    · simp [hn, hu]

/-- Entering a read comes to nothing in the same case. -/
theorem enter_eq_nothing_iff (s : BufferState) (n : Nat) :
    (s.enter n).1 = .nothing ↔
      0 < n ∧ s.queue.unread = [] ∧ s.closed = false ∧ s.deadlineReached = false := by
  rw [enter]
  cases hd : s.deadlineReached
  · simpa [hd] using attempt_eq_nothing_iff s n
  · simp

end BufferState

/-! ## One look for a reader -/

namespace Reader

theorem look_control (r : Reader) (s : BufferState) (entering : Bool) :
    (r.look s entering).2.control = s.control := by
  cases entering
  · exact BufferState.attempt_control s r.want
  · exact BufferState.enter_control s r.want

theorem look_bytes_append_unread (r : Reader) (s : BufferState) (entering : Bool) :
    (r.look s entering).1.bytes ++ (r.look s entering).2.queue.unread = s.queue.unread := by
  cases entering
  · exact BufferState.attempt_bytes_append_unread s r.want
  · exact BufferState.enter_bytes_append_unread s r.want

theorem look_eq_nothing_iff (r : Reader) (s : BufferState) (entering : Bool) :
    (r.look s entering).1 = .nothing ↔
      0 < r.want ∧ s.queue.unread = [] ∧ s.closed = false ∧ s.deadlineReached = false := by
  cases entering
  · exact BufferState.attempt_eq_nothing_iff s r.want
  · exact BufferState.enter_eq_nothing_iff s r.want

/-- A reader waits where an attempt comes to nothing, and nowhere else. -/
theorem settle_eq_waits_iff (r : Reader) (a : Attempt) : r.settle a = .waits ↔ a = .nothing := by
  cases a with
  | nothing => simp [settle]
  | taken bytes =>
    unfold settle
    split <;> simp_all
    -- only a destination to be filled asks how many bytes came
    split <;> simp
  | failed e =>
    unfold settle
    split <;> simp_all

/-- A reader that goes on is the same call with the bytes of its piece added. -/
theorem eq_collect_of_settle {r r' : Reader} {a : Attempt} (h : r.settle a = .onward r') :
    r' = r.collect a.bytes := by
  unfold settle at h
  split at h <;> simp_all [Attempt.bytes]
  split at h <;> simp_all

/-! ## A whole run -/

/-- A run changes nothing but the queue. -/
theorem proceed_control (r : Reader) (s : BufferState) (entering : Bool) :
    (r.proceed s entering).state.control = s.control := by
  fun_induction proceed r s entering with
  | case1 r s entering a outcome h => exact look_control r s entering
  | case2 r s entering a h => exact look_control r s entering
  | case3 r s entering a r' h rest ih => exact ih.trans (look_control r s entering)

/-- No byte is lost over a run, and none is seen twice. -/
theorem proceed_copied_append_unread (r : Reader) (s : BufferState) (entering : Bool) :
    (r.proceed s entering).copied ++ (r.proceed s entering).state.queue.unread
      = s.queue.unread := by
  fun_induction proceed r s entering with
  | case1 r s entering a outcome h => exact look_bytes_append_unread r s entering
  | case2 r s entering a h => exact look_bytes_append_unread r s entering
  | case3 r s entering a r' h rest ih =>
    show (a.1.bytes ++ rest.copied) ++ rest.state.queue.unread = _
    rw [List.append_assoc, ih]
    exact look_bytes_append_unread r s entering

/-- What a reader found that waits at a state: no byte, neither flag set, and
    room in its own destination. -/
structure Stuck (r : Reader) (s : BufferState) : Prop where
  unread_eq_nil : s.queue.unread = []
  closed_eq_false : s.closed = false
  deadlineReached_eq_false : s.deadlineReached = false
  want_pos : 0 < r.want

/-- A reader that a run leaves waiting is the same call, stuck at the state that
    the run left. -/
theorem stuck_of_proceed {r r' : Reader} {s : BufferState} {entering : Bool}
    (h : (r.proceed s entering).standing = .inr r') :
    r'.id = r.id ∧ r'.call = r.call ∧ r'.Stuck (r.proceed s entering).state := by
  fun_induction proceed r s entering with
  | case1 r s entering a outcome hs => simp at h
  | case2 r s entering a hs =>
    obtain rfl : r = r' := by simpa using h
    -- the look that came to nothing left the state but for its queue, and no byte in that
    have hnothing : a.1 = .nothing := (settle_eq_waits_iff r a.1).mp hs
    obtain ⟨hwant, hunread, hclosed, hreached⟩ :=
      (look_eq_nothing_iff r s entering).mp hnothing
    have hbytes := look_bytes_append_unread r s entering
    have hcontrol := BufferState.fields_of_control_eq (look_control r s entering)
    refine ⟨rfl, rfl, ?_, ?_, ?_, hwant⟩
    · rw [hunread] at hbytes
      exact (List.append_eq_nil_iff.mp hbytes).2
    · exact hcontrol.1.trans hclosed
    · exact hcontrol.2.1.trans hreached
  | case3 r s entering a r'' hs rest ih =>
    -- the piece went into `r''`, which is otherwise `r`
    obtain ⟨hid, hcall, hstuck⟩ := ih h
    rw [eq_collect_of_settle hs] at hid hcall
    exact ⟨hid, hcall, hstuck⟩

/-! ## Starting a call -/

/-- A call starts as a run that enters a read, unless it is to fill an empty
    destination: that ends at once with the state as it was. -/
theorem start_eq (r : Reader) (s : BufferState) :
    r.start s = r.proceed s true ∨ r.start s = { standing := .inl (.bytes []), state := s } := by
  rw [start]
  split
  · exact Or.inr rfl
  · exact Or.inl rfl

theorem start_control (r : Reader) (s : BufferState) : (r.start s).state.control = s.control := by
  rcases start_eq r s with h | h
  · rw [h]
    exact proceed_control r s true
  · rw [h]

theorem start_copied_append_unread (r : Reader) (s : BufferState) :
    (r.start s).copied ++ (r.start s).state.queue.unread = s.queue.unread := by
  rcases start_eq r s with h | h
  · rw [h]
    exact proceed_copied_append_unread r s true
  · rw [h]
    rfl

theorem stuck_of_start {r r' : Reader} {s : BufferState} (h : (r.start s).standing = .inr r') :
    r'.id = r.id ∧ r'.call = r.call ∧ r'.Stuck (r.start s).state := by
  rcases start_eq r s with he | he
  · rw [he] at h ⊢
    exact stuck_of_proceed h
  · rw [he] at h
    simp at h

end Reader

end StreamBuffer
