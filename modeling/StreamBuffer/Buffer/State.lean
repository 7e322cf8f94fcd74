/-
  StreamBuffer.Buffer.State

  The state of one buffer under its lock: the queue, whether it is closed,
  whether the read deadline was reached, the timer installed for the deadline,
  and the generation of the deadline.

  The generation goes up with every change of the deadline and with every close.
  A timer's callback and the second half of a deadline change carry the
  generation of their own change, and have an effect only while it is current;
  that settles every order in which they can come.

  The reference is `State` of ssh-buffer: `nextGeneration` is `cancel_timer`, and
  `attempt` is one turn of the loop in `Buffer`'s `read`, `enter` what comes before it
  together with the first turn.
-/
import StreamBuffer.Queue.Basic
import StreamBuffer.Buffer.Error
import StreamBuffer.Buffer.Event

namespace StreamBuffer

/-- The state of a buffer under its lock. The timer is known by its number. -/
structure BufferState where
  queue : SegmentQueue := {}
  closed : Bool := false
  deadlineReached : Bool := false
  timer : Option Nat := none
  generation : UInt64 := 0
  deriving Repr, DecidableEq

/-- What a look at the queue on behalf of a reader came to: bytes were taken, the
    read fails, or there is nothing for it yet. -/
inductive Attempt where
  | taken (bytes : Bytes)
  | failed (error : ReadError)
  | nothing
  deriving Repr, DecidableEq

namespace BufferState

/-- The summary of the state. -/
def summary (s : BufferState) : Summary where
  segments := s.queue.segmentCount
  drained := s.queue.isEmpty
  closed := s.closed
  deadlineReached := s.deadlineReached
  timerArmed := s.timer.isSome

/-- Begin a new generation, without a timer. The timer installed so far, if any,
    is still to be stopped. -/
def nextGeneration (s : BufferState) : BufferState :=
  { s with generation := s.generation + 1, timer := none }

/-! ## Reading -/

/-- What the bytes drained for a destination of `n` bytes come to: bytes come
    before the end of the stream, and that comes before the deadline; an empty
    destination is always served. -/
def verdict (s : BufferState) (n : Nat) (bytes : Bytes) : Attempt :=
  if n = 0 ∨ bytes ≠ [] then .taken bytes
  else if s.closed then .failed .endOfStream
  else if s.deadlineReached then .failed .deadlineExceeded
  else .nothing

/-- Look at the queue for up to `n` bytes. Whatever the verdict, no more of the
    state changes than the queue. -/
def attempt (s : BufferState) (n : Nat) : Attempt × BufferState :=
  let (bytes, queue) := s.queue.drain n
  (s.verdict n bytes, { s with queue })

/-- The same for a read that is only being entered: a deadline reached by then
    comes before everything. -/
def enter (s : BufferState) (n : Nat) : Attempt × BufferState :=
  if s.deadlineReached then (.failed .deadlineExceeded, s) else s.attempt n

/-! ## What an attempt takes -/

theorem attempt_eq (s : BufferState) (n : Nat) :
    s.attempt n =
      (s.verdict n (s.queue.unread.take n), { s with queue := (s.queue.drain n).2 }) := by
  simp [attempt]

theorem verdict_eq_taken_iff {s : BufferState} {n : Nat} {drained bytes : Bytes} :
    s.verdict n drained = .taken bytes ↔ (n = 0 ∨ drained ≠ []) ∧ drained = bytes := by
  unfold verdict
  repeat' split
  all_goals simp_all

/-- Where bytes were wanted and taken, fewer are left. -/
theorem length_unread_lt_of_attempt {s s' : BufferState} {n : Nat} {bytes : Bytes}
    (h : s.attempt n = (.taken bytes, s')) (hn : 0 < n) :
    s'.queue.unread.length < s.queue.unread.length := by
  rw [attempt_eq, Prod.mk.injEq, verdict_eq_taken_iff] at h
  obtain ⟨⟨hor, -⟩, rfl⟩ := h
  have hne : s.queue.unread ≠ [] := by
    rintro hnil
    simp [hnil] at hor
    omega
  have := List.length_pos_iff.mpr hne
  simp only [SegmentQueue.unread_drain, List.length_drop]
  omega

theorem enter_taken {s s' : BufferState} {n : Nat} {bytes : Bytes}
    (h : s.enter n = (.taken bytes, s')) : s.attempt n = (.taken bytes, s') := by
  unfold enter at h
  split at h
  · simp at h
  · exact h

end BufferState

end StreamBuffer
