/-
  StreamBuffer.Timer.Table

  Many timers beside one clock. A slot is made for every attempt to start a
  timer, in order, and keeps its number for good. Its owner may stop the timer
  or let it go, which stops it too; its callback may be held up until it is
  released.

  The transitions `stop`, `letGo`, `wake`, `leave` and `tick` may come in any
  order: nothing here schedules the threads. `start`, which is `after` of the
  reference's `DeadlineTimer`, and `elapse` are the two moments at which every
  thread concerned does get to run.
-/
import StreamBuffer.Timer.Basic

namespace StreamBuffer

/-- One attempt to start a timer: the timer, if its thread did start; whether its
    owner still has it; whether its callback waits to be released. -/
structure TimerSlot where
  timer : Option Timer
  owned : Bool := true
  held : Bool := false
  deriving Repr, DecidableEq

namespace TimerSlot

/-- The slot with its timer changed, if there is one. -/
def onTimer (f : Timer → Timer) (s : TimerSlot) : TimerSlot := { s with timer := s.timer.map f }

/-- The timer that the slot's owner can still act on. -/
def live? (s : TimerSlot) : Option Timer := if s.owned then s.timer else none

/-- How often the callback was entered. -/
def runs (s : TimerSlot) : Nat := (s.timer.map Timer.runs).getD 0

/-- The slot's thread wakes and reads the clock. -/
def wake (now : Nat) : TimerSlot → TimerSlot := onTimer (Timer.wake · now)

/-- The callback returns, unless it is held up. -/
def leave (s : TimerSlot) : TimerSlot := if s.held then s else s.onTimer Timer.leave

end TimerSlot

/-- The clock and the slots of all timers, in the order they were asked for. -/
structure TimerTable where
  now : Nat := 0
  slots : List TimerSlot := []
  deriving Repr, DecidableEq

namespace TimerTable

/-! ## Single transitions -/

/-- The slot of the given number, changed. -/
def onSlot (t : TimerTable) (i : Nat) (f : TimerSlot → TimerSlot) : TimerTable :=
  { t with slots := t.slots.modify i f }

/-- The timer of the given number that its owner can still act on. -/
def live? (t : TimerTable) (i : Nat) : Option Timer := t.slots[i]?.bind TimerSlot.live?

/-- Stop a timer; the answer is that of `Timer.stop`, or none if no owner has it. -/
def stop (t : TimerTable) (i : Nat) : Option Bool × TimerTable :=
  match t.live? i with
  | none => (none, t)
  | some timer => (some timer.stop.1, t.onSlot i (TimerSlot.onTimer fun x => x.stop.2))

/-- Let a timer go: it is stopped, and its owner has it no more. -/
def letGo (t : TimerTable) (i : Nat) : Option Unit × TimerTable :=
  match t.live? i with
  | none => (none, t)
  | some _ =>
    (some (), t.onSlot i fun s => { s.onTimer (fun x => x.stop.2) with owned := false })

/-- Hold a timer's callback up no longer; if it was waiting for that, it returns. -/
def release (t : TimerTable) (i : Nat) : Option Unit × TimerTable :=
  match t.live? i with
  | none => (none, t)
  | some _ => (some (), t.onSlot i fun s => { s with held := false }.leave)

/-- A timer's thread wakes and reads the clock. -/
def wake (t : TimerTable) (i : Nat) : TimerTable := t.onSlot i (TimerSlot.wake t.now)

/-- A timer's callback returns, unless it is held up. -/
def leave (t : TimerTable) (i : Nat) : TimerTable := t.onSlot i TimerSlot.leave

/-- The clock moves on. -/
def tick (t : TimerTable) : TimerTable := { t with now := t.now + 1 }

/-- Add a slot; its timer's deadline is seen from the clock's reading. -/
def push (t : TimerTable) (slot : TimerSlot) : TimerTable := { t with slots := t.slots ++ [slot] }

/-! ## Moments at which threads run -/

/-- Start a timer, under the next number. Its thread reads the clock at once, so
    a deadline that has come fires it. A failed start takes a number too. -/
def start (t : TimerTable) (name : String) (lead : Lead) (held refused : Bool) :
    Except StartError Nat × TimerTable :=
  let i := t.slots.length
  if !isThreadName name then (.error .nameHasNul, t.push { timer := none })
  else if refused then (.error .refused, t.push { timer := none })
  else (.ok i, ((t.push { timer := some { deadline := lead.instant t.now }, held }).wake i).leave i)

/-- The clock moves on, and every thread reads it. -/
def elapse (t : TimerTable) : TimerTable :=
  let t := t.tick
  { t with slots := t.slots.map fun s => (s.wake t.now).leave }

/-- How often each slot's callback was entered. -/
def runs (t : TimerTable) : List Nat := t.slots.map TimerSlot.runs

end TimerTable

end StreamBuffer
