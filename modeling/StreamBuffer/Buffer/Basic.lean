/-
  StreamBuffer.Buffer.Basic

  A buffer: its state, the readers that wait for it in the order they came, and
  the operations on it, each a critical section under the buffer's lock together
  with the readers that it wakes.

  A write wakes the reader that has waited longest; closing, every change of the
  deadline and reaching it wake all. A woken reader goes on at once, and if it
  finds nothing it waits again behind the others.

  A change to a deadline still to come is cut in two, since the timer's thread
  is started without the lock: `Buffer.startDeadline` opens a generation, and
  `Buffer.install` or `Buffer.startRefused` close the change for that generation.
  In between anything may happen. `Buffer.fire` is the timer's callback.

  The reference is `Buffer` of ssh-buffer: `with_config` (`ofConfig` here), `write`,
  `eof` (`close`), `read`, the two critical sections of `set_deadline`, and
  `on_deadline` of the `Shared` that its handles have in common (`fire`). The line of
  readers stands for those that wait on its condition variable.
-/
import StreamBuffer.Buffer.Reader
import StreamBuffer.Config.Basic

namespace StreamBuffer

/-! ## Effects -/

/-- What an operation did beside changing the buffer: the events recorded, the
    readers that ended with their outcomes, the timers given up, and the bytes
    copied out, each in order. -/
structure Effects where
  events : List Event := []
  ended : List (Nat × Outcome) := []
  released : List Nat := []
  copied : Bytes := []
  deriving Repr, DecidableEq

namespace Effects

/-- The effects of two operations, one after the other. -/
protected def append (a b : Effects) : Effects where
  events := a.events ++ b.events
  ended := a.ended ++ b.ended
  released := a.released ++ b.released
  copied := a.copied ++ b.copied

instance : Append Effects := ⟨Effects.append⟩

end Effects

/-! ## Buffers -/

/-- A buffer: the name of its timer threads, its state, and the readers that wait,
    first the one that has waited longest. -/
structure Buffer where
  threadName : String := Config.timerThreadName {}
  state : BufferState := {}
  waiting : List Reader := []

namespace Buffer

/-- A new buffer, empty and open. -/
def ofConfig (c : Config) : Buffer where
  threadName := c.timerThreadName
  state := { queue := .ofCapacity c.effectiveCapacity.toNat }

/-- The numbers of the readers that wait. -/
def waitingIds (b : Buffer) : List Nat := b.waiting.map Reader.id

/-! ## Waking -/

/-- Take over how far a reader came; if it is not done, it waits behind the rest. -/
def accept (b : Buffer) (id : Nat) (a : Advance) : Buffer × Effects :=
  match a.standing with
  | .inl outcome =>
    ({ b with state := a.state },
      { events := a.events, ended := [(id, outcome)], copied := a.copied })
  | .inr r =>
    ({ b with state := a.state, waiting := b.waiting ++ [r] },
      { events := a.events, copied := a.copied })

/-- Let a woken reader go on. -/
def serve (b : Buffer) (r : Reader) : Buffer × Effects := b.accept r.id (r.resume b.state)

/-- Let woken readers go on, in order. -/
def serveAll (b : Buffer) : List Reader → Buffer × Effects
  | [] => (b, {})
  | r :: rest =>
    let (b, e₁) := b.serve r
    let (b, e₂) := b.serveAll rest
    (b, e₁ ++ e₂)

/-- Wake the reader that has waited longest, if any waits. -/
def wakeOne (b : Buffer) : Buffer × Effects :=
  match b.waiting with
  | [] => (b, {})
  | r :: rest => { b with waiting := rest }.serve r

/-- Wake every reader. -/
def wakeAll (b : Buffer) : Buffer × Effects := { b with waiting := [] }.serveAll b.waiting

/-! ## The data path -/

/-- Append a chunk and wake one reader. A closed buffer takes chunks too. -/
def write (b : Buffer) (chunk : Bytes) : Buffer × Effects :=
  let state := { b.state with queue := b.state.queue.append chunk }
  let (b, e) := { b with state }.wakeOne
  (b, ({ events := [.wrote chunk.length] } : Effects) ++ e)

/-- Close the buffer for good, call the timer off, and wake every reader. -/
def close (b : Buffer) : Buffer × Effects :=
  let events := if b.state.closed then [] else [.closed]
  let released := b.state.timer.toList
  let (b, e) := { b with state := { b.state.nextGeneration with closed := true } }.wakeAll
  (b, ({ events, released } : Effects) ++ e)

/-- Start a read call. -/
def read (b : Buffer) (r : Reader) : Buffer × Effects := b.accept r.id (r.start b.state)

/-! ## The deadline -/

/-- The first half of a change of the deadline, at a reading of the clock: the old
    timer is called off, the deadline is cleared, or counts as reached if it has
    come already, and every reader is woken. -/
def startDeadline (b : Buffer) (now : Nat) (deadline : Option Instant) : Buffer × Effects :=
  let reached := deadline.any (Instant.hasCome now)
  let events := match deadline with
    | none => [.deadlineCleared]
    | some _ => if reached then [.deadlinePassed] else []
  let released := b.state.timer.toList
  let (b, e) :=
    { b with state := { b.state.nextGeneration with deadlineReached := reached } }.wakeAll
  (b, ({ events, released } : Effects) ++ e)

/-- The second half after the timer's thread has started: the timer is installed,
    in place of any other, unless its generation is over or the deadline was reached
    meanwhile; then it is given up. -/
def install (b : Buffer) (generation : UInt64) (timer : Nat) : Buffer × Effects :=
  if b.state.generation = generation ∧ b.state.deadlineReached = false then
    ({ b with state := { b.state with timer := some timer } },
      { events := [.deadlineArmed generation], released := b.state.timer.toList })
  else (b, { released := [timer] })

/-- The deadline of the current generation is reached; every reader is woken. -/
def reachDeadline (b : Buffer) : Buffer × Effects :=
  { b with state := { b.state with deadlineReached := true } }.wakeAll

/-- The second half after the timer's thread was refused: a deadline that cannot
    be waited for counts as reached, if its generation is not over. -/
def startRefused (b : Buffer) (generation : UInt64) : Buffer × Effects :=
  let refused : Effects := { events := [.startRefused] }
  if b.state.generation = generation then
    let (b, e) := b.reachDeadline
    (b, refused ++ e)
  else (b, refused)

/-- The timer's callback: it reaches the deadline and gives up the installed
    timer, unless its generation is over. -/
def fire (b : Buffer) (generation : UInt64) : Buffer × Effects :=
  if b.state.generation = generation then
    let released := b.state.timer.toList
    let (b, e) := { b with state := { b.state with timer := none } }.reachDeadline
    (b, ({ events := [.deadlineReached generation], released } : Effects) ++ e)
  else (b, { events := [.deadlineStale generation] })

end Buffer

end StreamBuffer
