/-
  StreamBuffer.Proofs.Buffer.Bounds

  The queue of a buffer knows two operations only: actions append to it, and readers
  drain it. So what a new queue satisfies and both operations keep, the queue of every
  reachable buffer satisfies (`Reachable.queue_induction`).

  The case at hand is that no segment is read beyond its end, so that every copy loop
  over the queue of a reachable buffer keeps within its bounds.
-/
import StreamBuffer.Proofs.Buffer.Action
import StreamBuffer.Proofs.Queue.Bounds

namespace StreamBuffer

section Drained

variable {P : SegmentQueue → Prop} (hdrain : ∀ q n, P q → P (q.drain n).2)
include hdrain

/-! ## Readers drain the queue -/

theorem BufferState.queue_attempt {s : BufferState} (h : P s.queue) (n : Nat) :
    P (s.attempt n).2.queue := by
  rw [attempt_eq]
  exact hdrain s.queue n h

theorem Reader.queue_look (r : Reader) {s : BufferState} (h : P s.queue) (entering : Bool) :
    P (r.look s entering).2.queue := by
  cases entering with
  | false => exact BufferState.queue_attempt hdrain h r.want
  | true =>
    show P (s.enter r.want).2.queue
    rw [BufferState.enter]
    split
    · exact h
    · exact BufferState.queue_attempt hdrain h r.want

theorem Reader.queue_proceed (r : Reader) {s : BufferState} (h : P s.queue) (entering : Bool) :
    P (r.proceed s entering).state.queue := by
  fun_induction proceed r s entering with
  | case1 r s entering a outcome hs => exact Reader.queue_look hdrain r h entering
  | case2 r s entering a hs => exact Reader.queue_look hdrain r h entering
  | case3 r s entering a r' hs rest ih => exact ih (Reader.queue_look hdrain r h entering)

theorem Reader.queue_start (r : Reader) {s : BufferState} (h : P s.queue) :
    P (r.start s).state.queue := by
  rcases start_eq r s with hs | hs
  · rw [hs]
    exact Reader.queue_proceed hdrain r h true
  · rw [hs]
    exact h

namespace Buffer

theorem queue_serve {b : Buffer} (h : P b.state.queue) (r : Reader) :
    P (b.serve r).1.state.queue := by
  rw [serve, state_accept]
  exact Reader.queue_proceed hdrain r h false

theorem queue_serveAll {b : Buffer} (h : P b.state.queue) (readers : List Reader) :
    P (b.serveAll readers).1.state.queue := by
  induction readers generalizing b with
  | nil => exact h
  | cons r rest ih => exact ih (queue_serve hdrain h r)

theorem queue_wake {b : Buffer} (h : P b.state.queue) (w : Waking) :
    P (b.wake w).1.state.queue := by
  cases w with
  | nobody => exact h
  | longest =>
    show P b.wakeOne.1.state.queue
    rw [wakeOne]
    split
    · exact h
    · rename_i r rest _
      exact queue_serve hdrain (b := { b with waiting := rest }) h r
  | everybody => exact queue_serveAll hdrain (b := { b with waiting := [] }) h b.waiting
  | newcomer r =>
    show P (b.read r).1.state.queue
    rw [read, state_accept]
    exact Reader.queue_start hdrain r h

end Buffer

end Drained

/-! ## Actions append to it -/

namespace Buffer

theorem queue_change (b : Buffer) (a : Action) :
    (b.change a).1.queue = b.state.queue
      ∨ ∃ chunk, (b.change a).1.queue = b.state.queue.append chunk := by
  cases a with
  | write chunk => exact Or.inr ⟨chunk, rfl⟩
  | close => exact Or.inl rfl
  | read id call => exact Or.inl rfl
  | startDeadline now deadline => exact Or.inl rfl
  | install generation timer =>
    left
    simp only [change]
    split <;> rfl
  | startRefused generation =>
    left
    simp only [change]
    split <;> rfl
  | fire generation =>
    left
    simp only [change]
    split <;> rfl
  | abandon => exact Or.inl rfl

/-- What a new queue satisfies, and appending and draining keep, the queue of every
    reachable buffer satisfies. -/
theorem Reachable.queue_induction {P : SegmentQueue → Prop} (hnew : ∀ n, P (.ofCapacity n))
    (happend : ∀ q chunk, P q → P (q.append chunk)) (hdrain : ∀ q n, P q → P (q.drain n).2)
    {b : Buffer} (h : b.Reachable) : P b.state.queue := by
  refine h.induction (P := fun b => P b.state.queue)
    (fun c => hnew c.effectiveCapacity.toNat) ?_
  intro b a hb
  rw [(act_eq b a).1]
  refine queue_wake hdrain ?_ (b.change a).2
  show P (b.change a).1.queue
  rcases queue_change b a with hsame | ⟨chunk, happended⟩
  · rw [hsame]
    exact hb
  · rw [happended]
    exact happend _ chunk hb

/-! ## Copying out of it -/

/-- Every copy loop over the buffer's queue ends, whatever the destination, and none of
    its slices leaves its bounds. -/
def CopiesInBounds (b : Buffer) : Prop :=
  ∀ dst : Bytes, ∃ out, Copy.finish? (2 * b.state.queue.segmentCount)
    { segments := b.state.queue.segments, dst } = some out

theorem Reachable.copiesInBounds {b : Buffer} (h : b.Reachable) : b.CopiesInBounds := by
  intro dst
  have hbounds : b.state.queue.InBounds :=
    h.queue_induction SegmentQueue.inBounds_ofCapacity (fun _ chunk hq => hq.append chunk)
      fun _ n hq => hq.drain n
  have hcopy : Copy.WithinBounds { segments := b.state.queue.segments, dst } :=
    ⟨hbounds, Nat.zero_le _⟩
  exact Copy.exists_finish? hcopy

end Buffer

end StreamBuffer
