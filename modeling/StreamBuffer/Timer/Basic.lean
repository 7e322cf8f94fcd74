/-
  StreamBuffer.Timer.Basic

  One-shot timers. A timer has a thread of its own that sleeps until the
  deadline and then runs a callback, unless the timer was stopped before. Both
  sides meet in a cell: stopping moves it from `pending` to `stopped`, the
  thread moves it from `pending` to `fired`, and whichever comes second finds
  the cell no longer pending and does nothing.

  The reference is `DeadlineTimer` of ssh-buffer with its `TimerCell`. There are two
  transitions under the cell's lock: `Timer.stop` is `stop` there, which dropping the
  timer comes to as well, and `Timer.wake` is a turn of the loop in the thread that
  `after` starts, with what follows the last. `Timer.leave` is the return of the
  callback `f`. The clock is abstract: a count of ticks, against which a deadline is
  a tick or never comes.
-/

namespace StreamBuffer

/-! ## Instants -/

/-- An instant on the clock, or one that the clock never comes to. -/
inductive Instant where
  | tick (n : Nat)
  | never
  deriving Repr, DecidableEq

/-- The instant has come when the clock reads `now`. -/
def Instant.hasCome (now : Nat) : Instant → Bool
  | .tick n => n ≤ now
  | .never => false

/-- Where an instant lies, seen from the moment it is named: some ticks ago or
    just now, at the clock's next tick, or beyond every tick. -/
inductive Lead where
  | past (ago : Nat)
  | soon
  | far
  deriving Repr, DecidableEq

/-- The instant that a lead names when the clock reads `now`. -/
def Lead.instant (now : Nat) : Lead → Instant
  | .past ago => .tick (now - ago)
  | .soon => .tick (now + 1)
  | .far => .never

/-! ## Starting a timer's thread -/

/-- Why a timer's thread did not start: its name holds a NUL character, which no
    thread name can, or the system grants no further thread. -/
inductive StartError where
  | nameHasNul
  | refused
  deriving Repr, DecidableEq

/-- The text of the system's refusal. A bad name has none: it abandons the call. -/
def StartError.refusedText : String := "Resource temporarily unavailable (os error 11)"

/-- A thread can bear the name: no character of it is NUL. -/
def isThreadName (name : String) : Bool := name.toList.all fun c => c != '\x00'

/-! ## Timers -/

namespace Timer

/-- What the cell shared with the thread says. -/
inductive Cell where
  | pending
  | stopped
  | fired
  deriving Repr, DecidableEq

/-- Where the timer's thread is: asleep, in the callback, or gone. -/
inductive Thread where
  | waiting
  | calling
  | finished
  deriving Repr, DecidableEq

end Timer

/-- A timer whose thread was started, with the number of its callback's runs. -/
structure Timer where
  deadline : Instant
  cell : Timer.Cell := .pending
  thread : Timer.Thread := .waiting
  runs : Nat := 0
  deriving Repr, DecidableEq

namespace Timer

/-- Stop the timer; true if that kept the callback from running. -/
def stop (t : Timer) : Bool × Timer :=
  match t.cell with
  | .pending => (true, { t with cell := .stopped })
  | .stopped | .fired => (false, t)

/-- The sleeping thread wakes, for whatever reason, and reads the clock: it goes
    away if the timer was stopped, enters the callback if the deadline has come,
    and sleeps on otherwise. -/
def wake (t : Timer) (now : Nat) : Timer :=
  match t.thread, t.cell with
  | .waiting, .pending =>
    if t.deadline.hasCome now then
      { t with cell := .fired, thread := .calling, runs := t.runs + 1 }
    else t
  | .waiting, .stopped | .waiting, .fired => { t with thread := .finished }
  | .calling, _ | .finished, _ => t

/-- The callback returns. -/
def leave (t : Timer) : Timer :=
  match t.thread with
  | .calling => { t with thread := .finished }
  | .waiting | .finished => t

end Timer

end StreamBuffer
