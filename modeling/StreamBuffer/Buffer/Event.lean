/-
  StreamBuffer.Buffer.Event

  What a buffer tells an observer: the events it records, each as one line, and
  the summary of its state, which shows no payload.

  The events are the tracing calls of the reference's `Buffer` and `Shared`, one
  constructor for each; the summary is what its `Debug` shows.
-/
import StreamBuffer.Timer.Basic

namespace StreamBuffer

/-- An event recorded under the buffer's lock. Each look at the queue that takes bytes
    or has to wait is an event; `inner` says that a repeating call looked. -/
inductive Event where
  | wrote (len : Nat)
  | read (n : Nat) (inner : Bool)
  | blocking (inner : Bool)
  | closed
  | deadlineCleared
  | deadlinePassed
  | deadlineArmed (generation : UInt64)
  | deadlineReached (generation : UInt64)
  | deadlineStale (generation : UInt64)
  | startRefused
  deriving Repr, DecidableEq

/-- The event's line: its level, its message and its field. -/
def Event.line : Event → String
  | .wrote len => "TRACE buffer write len=" ++ len.repr
  | .read n _ => "TRACE buffer read n=" ++ n.repr
  | .blocking _ => "TRACE buffer read blocking"
  | .closed => "DEBUG buffer closed"
  | .deadlineCleared => "DEBUG read deadline cleared"
  | .deadlinePassed => "DEBUG read deadline already passed"
  | .deadlineArmed g => "DEBUG read deadline armed generation=" ++ g.toNat.repr
  | .deadlineReached g => "DEBUG read deadline reached generation=" ++ g.toNat.repr
  | .deadlineStale g => "DEBUG stale deadline timer suppressed generation=" ++ g.toNat.repr
  | .startRefused => "ERROR failed to spawn deadline timer error=" ++ StartError.refusedText

/-- Reports show an event unless it is of a look inside a repeating call. -/
def Event.isShown : Event → Bool
  | .read _ inner | .blocking inner => !inner
  | _ => true

/-- The state of a buffer without its payload. -/
structure Summary where
  segments : Nat
  drained : Bool
  closed : Bool
  deadlineReached : Bool
  timerArmed : Bool
  deriving Repr, DecidableEq

namespace Summary

/-- The names of the summary's fields with their values' texts, in order. -/
def fields (s : Summary) : List (String × String) :=
  let flag (b : Bool) : String := if b then "true" else "false"
  [("segments", s.segments.repr), ("drained", flag s.drained), ("closed", flag s.closed),
    ("deadline_reached", flag s.deadlineReached), ("timer_armed", flag s.timerArmed)]

/-- The summary on one line. -/
def line (s : Summary) : String :=
  "Buffer \x7b " ++ ", ".intercalate (s.fields.map fun f => f.1 ++ ": " ++ f.2) ++ " \x7d"

/-- The summary with a line for each field. -/
def block (s : Summary) : String :=
  let row (f : String × String) : String := "    " ++ f.1 ++ ": " ++ f.2 ++ ",\n"
  "Buffer \x7b\n" ++ String.join (s.fields.map row) ++ "\x7d"

end Summary

end StreamBuffer
