/-
  StreamBuffer.Proofs.Session.View

  One buffer by itself: what a session holds of it, and what is done to it.

  A `View` has the buffer without its timer, the deadline that the timer is set to, and the
  changes of the deadline in flight, innermost first; deadlines are seen from the present. It
  knows nothing of other buffers, of handles, of the numbers of timers and of the clock.
  `View.act` is what a deed makes of the view, and which calls it ends; `View.elapse` is what
  time passing makes of it; `View.follow` goes through a history of both. `Session.view` is
  the view of a buffer in a session.
-/
import StreamBuffer.Proofs.Session.Trail

namespace StreamBuffer

/-- The instant as it is seen when the clock reads `now`, as if the clock began there. -/
def Instant.ahead (now : Nat) : Instant → Instant
  | .tick n => .tick (n - now)
  | .never => .never

/-- A buffer by itself; none if it is still to be made. -/
structure View where
  buffer : Option Buffer := none
  armed : Option Instant := none
  armings : List (UInt64 × Instant) := []

namespace View

/-- A view, and the calls that ended in coming to it, with their outcomes. -/
abbrev Result := View × List (Nat × Outcome)

/-! ## Looking -/

/-- The readers that wait, by number. -/
def waitingIds (v : View) : List Nat := (v.buffer.map Buffer.waitingIds).getD []

/-- The buffer's summary. -/
def summary? (v : View) : Option Summary :=
  v.buffer.map fun b => { b.state.summary with timerArmed := v.armed.isSome }

/-- The generation is the buffer's. -/
def isCurrent (v : View) (g : UInt64) : Bool := v.buffer.any fun b => b.state.generation == g

/-! ## Deeds -/

/-- An operation on the buffer, if it is there. -/
def on (v : View) (f : Buffer → Buffer × Effects) : Result :=
  match v.buffer with
  | none => (v, [])
  | some b => ({ v with buffer := some (f b).1 }, (f b).2.ended)

/-- The timer is called off. -/
def disarm (v : View) : View := { v with armed := none }

/-- The timer goes off. -/
def ring (v : View) : Result := v.disarm.on Buffer.reachDeadline

/-- A timer of the given generation goes off. -/
def fire (v : View) (g : UInt64) : Result := if v.isCurrent g then v.ring else (v, [])

/-- The timer of a change is installed, if its generation is not over and the deadline was
    not reached meanwhile. -/
def install (v : View) (a : UInt64 × Instant) : View :=
  if v.isCurrent a.1 ∧ v.buffer.any (·.state.deadlineReached) = false then
    { v with armed := some a.2 }
  else v

/-- The timer's thread starts with a reading of the clock. -/
def launch (v : View) (a : UInt64 × Instant) (reading : Nat) : Result :=
  if a.2.hasCome reading then v.fire a.1 else (v.install a, [])

/-- The timer's thread is refused. -/
def refuse (v : View) (a : UInt64 × Instant) : Result :=
  if v.isCurrent a.1 then v.on Buffer.reachDeadline else (v, [])

/-- The second half of a change. -/
def finish (v : View) (a : UInt64 × Instant) : Launch → Result
  | .prompt => v.launch a 0
  | .overtaken => v.launch a 1
  | .refused => v.refuse a

/-- A change is in flight, if its deadline is still to come and the thread can have its
    name. -/
def enterFlight (v : View) (deadline : Option Instant) : View :=
  match v.buffer, deadline with
  | some b, some deadline =>
    if deadline.hasCome 0 ∨ isThreadName b.threadName = false then v
    else { v with armings := (b.state.generation, deadline) :: v.armings }
  | _, _ => v

/-- The first half of a change. -/
def startDeadline (v : View) (lead : Option Lead) : Result :=
  let deadline := lead.map (Lead.instant 0)
  let (v, ended) := v.disarm.on (·.startDeadline 0 deadline)
  (v.enterFlight deadline, ended)

/-- What a deed makes of the view. -/
def act (v : View) : Deed → Result
  | .create c => ({ buffer := some (.ofConfig c) }, [])
  | .write chunk => v.on (·.write chunk)
  | .close => v.disarm.on Buffer.close
  | .read id call => v.on (·.read { id, call })
  | .startDeadline lead => v.startDeadline lead
  | .finishDeadline launch =>
    match v.armings with
    | [] => (v, [])
    | a :: rest =>
      let (v, ended) := v.finish a launch
      ({ v with armings := rest }, ended)

/-- Deadlines come nearer. -/
def age (v : View) : View :=
  { v with
    armed := v.armed.map (Instant.ahead 1)
    armings := v.armings.map (Prod.map id (Instant.ahead 1)) }

/-- What time passing makes of the view. -/
def elapse (v : View) : Result :=
  if v.armed.any (Instant.hasCome 1) then v.age.ring else (v.age, [])

/-- A deed, or time passing. -/
def step (v : View) : Option Deed → Result
  | some d => v.act d
  | none => v.elapse

/-- What a history makes of the view, and all the calls that ended in it. -/
def follow (v : View) : List (Option Deed) → Result
  | [] => (v, [])
  | d :: rest => (((v.step d).1.follow rest).1, (v.step d).2 ++ ((v.step d).1.follow rest).2)

theorem armings_on (v : View) (f : Buffer → Buffer × Effects) : (v.on f).1.armings = v.armings := by
  rw [on]
  split <;> rfl

theorem follow_append (v : View) (first second : List (Option Deed)) :
    v.follow (first ++ second)
      = (((v.follow first).1.follow second).1,
        (v.follow first).2 ++ ((v.follow first).1.follow second).2) := by
  induction first generalizing v with
  | nil => rfl
  | cons d rest ih => simp only [List.cons_append, follow, ih, List.append_assoc]

/-- Before a buffer is made, time passes without a trace. -/
theorem follow_dropWhile_isNone (ds : List (Option Deed)) :
    ({} : View).follow (ds.dropWhile Option.isNone) = ({} : View).follow ds := by
  induction ds with
  | nil => rfl
  | cons d rest ih =>
    cases d with
    | none => exact ih
    | some d => rfl

end View

/-! ## Views of a session -/

/-- The buffer without its timer. -/
def Buffer.untimed (b : Buffer) : Buffer := { b with state := { b.state with timer := none } }

namespace Session

/-- The deadline of the timer of the given number. -/
def deadlineOf? (s : Session) (i : Nat) : Option Instant :=
  s.alarms[i]?.map fun a => a.timer.deadline

/-- The number of the timer installed in a buffer. -/
def timerOf? (s : Session) (b : Nat) : Option Nat := s.buffers[b]?.bind fun x => x.state.timer

/-- The deadline that the timer of a buffer is set to. -/
def armedOf? (s : Session) (b : Nat) : Option Instant := (s.timerOf? b).bind s.deadlineOf?

/-- The changes of a buffer's deadline in flight. -/
def armingsOf (s : Session) (b : Nat) : List Arming := s.armings.filter fun a => a.buffer == b

/-- The view of a buffer. -/
def view (s : Session) (b : Nat) : View where
  buffer := s.buffers[b]?.map Buffer.untimed
  armed := (s.armedOf? b).map (Instant.ahead s.now)
  armings := (s.armingsOf b).map fun a => (a.generation, a.deadline.ahead s.now)

end Session

end StreamBuffer
