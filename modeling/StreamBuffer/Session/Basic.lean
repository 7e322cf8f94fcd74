/-
  StreamBuffer.Session.Basic

  Many buffers at once: the handles that refer to them, the timers started for
  their deadlines, and the changes of a deadline that stand between their halves.

  A buffer is alive as long as a handle refers to it, a reader waits for it, or a
  change of its deadline is in flight. When the last of these goes, the buffer is
  retired: the timer it had installed is stopped.

  In the reference a handle is a clone of a `Buffer`, and what keeps the buffer is a
  count of references to its `Shared`; a timer's callback holds a weak one.

  The clock counts elapses: a deadline that is soon comes with the next one. Each
  transition returns what it did as `Effects`.
-/
import StreamBuffer.Buffer.Basic

namespace StreamBuffer

/-- A timer started for a buffer's deadline, and the generation its callback
    carries. -/
structure Alarm where
  timer : Timer
  buffer : Nat
  generation : UInt64
  deriving Repr, DecidableEq

/-- A change of a buffer's deadline between its halves. -/
structure Arming where
  buffer : Nat
  generation : UInt64
  deadline : Instant
  deriving Repr, DecidableEq

/-- How the start of a deadline's timer goes: the thread starts at once; it starts,
    and the deadline comes before the starter goes on; or it is refused. -/
inductive Launch where
  | prompt
  | overtaken
  | refused
  deriving Repr, DecidableEq

/-- All buffers and what belongs to them. Handles, buffers and timers are known by
    their places; a handle that was dropped keeps its place. `started` counts the
    read calls so far. `records` holds what each buffer recorded so far, the looks of
    repeating calls included. -/
structure Session where
  now : Nat := 0
  buffers : List Buffer := []
  handles : List (Option Nat) := []
  alarms : List Alarm := []
  armings : List Arming := []
  started : Nat := 0
  records : List (List Event) := []

namespace Session

/-! ## Looking up -/

/-- The buffer that a handle refers to. -/
def bufferOf? (s : Session) (h : Nat) : Option Nat := s.handles[h]?.join

/-- The readers that wait for a buffer, by number. -/
def waitingIds (s : Session) (b : Nat) : List Nat := (s.buffers[b]?.map Buffer.waitingIds).getD []

/-- Something still holds on to the buffer. -/
def isAlive (s : Session) (b : Nat) : Bool :=
  s.handles.contains (some b) || s.armings.any (fun a => a.buffer == b)
    || !(s.waitingIds b).isEmpty

/-! ## Timers and buffers -/

/-- Stop the timer of the given number. -/
def stopAlarm (s : Session) (i : Nat) : Session :=
  { s with alarms := s.alarms.modify i fun a => { a with timer := a.timer.stop.2 } }

/-- Stop the timers of the given numbers. -/
def stopAlarms (s : Session) (ids : List Nat) : Session := ids.foldl stopAlarm s

/-- Take over what an operation made of a buffer, and what it recorded. -/
def put (s : Session) (b : Nat) (out : Buffer × Effects) : Session :=
  { s with
    buffers := s.buffers.set b out.1
    records := s.records.modify b (· ++ out.2.events) }

/-- Apply an operation to a buffer; the timers that it gives up are stopped. -/
def onBuffer (s : Session) (b : Nat) (f : Buffer → Buffer × Effects) : Session × Effects :=
  match s.buffers[b]? with
  | none => (s, {})
  | some buffer =>
    let out := f buffer
    ((s.put b out).stopAlarms out.2.released, out.2)

/-- A buffer that nothing holds on to gives up its timer. -/
def retire (s : Session) (b : Nat) : Session :=
  if s.isAlive b then s
  else
    (s.onBuffer b fun buffer =>
      ({ buffer with state := { buffer.state with timer := none } },
        { released := buffer.state.timer.toList })).1

/-- A timer's thread wakes with a reading of the clock. If that lets it into the
    callback, the callback runs to its end. -/
def wakeAlarm (s : Session) (reading : Nat) (i : Nat) : Session × Effects :=
  match s.alarms[i]? with
  | none => (s, {})
  | some a =>
    let timer := a.timer.wake reading
    let s := { s with alarms := s.alarms.set i { a with timer } }
    match timer.thread with
    | .calling =>
      let (s, e) := s.onBuffer a.buffer (·.fire a.generation)
      ({ s with alarms := s.alarms.modify i fun a => { a with timer := a.timer.leave } }, e)
    | .waiting | .finished => (s, {})

/-- Timer threads wake one after the other, with the same reading of the clock. -/
def wakeAlarms (s : Session) (reading : Nat) : List Nat → Session × Effects
  | [] => (s, {})
  | i :: rest =>
    let (s, e₁) := s.wakeAlarm reading i
    let (s, e₂) := s.wakeAlarms reading rest
    (s, e₁ ++ e₂)

/-! ## Handles -/

/-- Make a buffer and a handle to it; the answer is the handle. -/
def create (s : Session) (c : Config) : Session × Nat :=
  ({ s with
      buffers := s.buffers ++ [.ofConfig c]
      handles := s.handles ++ [some s.buffers.length]
      records := s.records ++ [[]] }, s.handles.length)

/-- Make a further handle to a buffer. -/
def share (s : Session) (b : Nat) : Session × Nat :=
  ({ s with handles := s.handles ++ [some b] }, s.handles.length)

/-- Drop a handle to the given buffer. -/
def drop (s : Session) (h b : Nat) : Session :=
  { s with handles := s.handles.set h none }.retire b

/-! ## Operations on a buffer -/

/-- Append a chunk. -/
def write (s : Session) (b : Nat) (chunk : Bytes) : Session × Effects :=
  s.onBuffer b (·.write chunk)

/-- Close a buffer. -/
def close (s : Session) (b : Nat) : Session × Effects := s.onBuffer b Buffer.close

/-- Start a read call, under the next number. -/
def read (s : Session) (b : Nat) (call : Call) : Session × Effects :=
  { s with started := s.started + 1 }.onBuffer b (·.read { id := s.started, call })

/-! ## Deadlines -/

/-- Where the first half of a change of the deadline leads: the change is complete;
    the thread's name is bad and the change is abandoned; or the second half is
    still to come. -/
inductive Opening where
  | complete
  | badThreadName
  | inFlight (a : Arming)
  deriving Repr, DecidableEq

/-- The first half of a change of a buffer's deadline. -/
def startDeadline (s : Session) (b : Nat) (lead : Option Lead) : Session × Effects × Opening :=
  let deadline := lead.map (Lead.instant s.now)
  let (s, e) := s.onBuffer b (·.startDeadline s.now deadline)
  match s.buffers[b]?, deadline with
  | some buffer, some deadline =>
    if deadline.hasCome s.now then (s, e, .complete)
    else if !isThreadName buffer.threadName then (s, e, .badThreadName)
    else
      let a : Arming := { buffer := b, generation := buffer.state.generation, deadline }
      ({ s with armings := a :: s.armings }, e, .inFlight a)
  | _, _ => (s, e, .complete)

/-- A timer's thread starts with a reading of the clock, and then the timer is
    handed to the buffer. -/
def launch (s : Session) (a : Arming) (reading : Nat) : Session × Effects :=
  let i := s.alarms.length
  let alarm : Alarm :=
    { timer := { deadline := a.deadline }, buffer := a.buffer, generation := a.generation }
  let (s, e₁) := { s with alarms := s.alarms ++ [alarm] }.wakeAlarm reading i
  let (s, e₂) := s.onBuffer a.buffer (·.install a.generation i)
  (s, e₁ ++ e₂)

/-- The second half of a change of a deadline. A deadline that comes before the
    starter goes on is one that the new thread reads a tick ahead. The buffer may
    have lost its last handle meanwhile; it is the caller who then retires it. -/
def finishDeadline (s : Session) (a : Arming) (launch : Launch) : Session × Effects :=
  let (s, e) := match launch with
    | .prompt => s.launch a s.now
    | .overtaken => s.launch a (s.now + 1)
    | .refused => s.onBuffer a.buffer (·.startRefused a.generation)
  ({ s with armings := s.armings.erase a }, e)

/-- Every deadline that is soon comes: the clock moves on, and the timers' threads
    wake in the order the timers were started. -/
def elapse (s : Session) : Session × Effects :=
  { s with now := s.now + 1 }.wakeAlarms (s.now + 1) (List.range s.alarms.length)

end Session

end StreamBuffer
