/-
  StreamBuffer.Proofs.Deadline.System

  One buffer with all the changes of its deadline, overlapping in any way.

  A change is known by its place among the changes. Its first half opens a
  generation; if the deadline is still to come, its timer's thread is then started
  or refused, and a second half follows. Between any two of these moments every
  other event can happen: halves of other changes, closing, reads and writes, and
  the callbacks of timers already started, each as late and as often as one likes.
  A thread whose name no thread can bear is neither started nor refused; with any
  other name a change that was opened can always go on (`exists_step_of_opened`).

  `View` is the deadline that users see, which knows nothing of generations:
  none, pending since some change, or reached.
-/
import StreamBuffer.Proofs.Buffer.Action

namespace StreamBuffer

namespace Deadline

/-! ## Changes in flight -/

/-- How far a change of the deadline has come: its first half was all there is to
    it; its timer's thread is still to be started; the thread was started; the second
    half is done; or the thread was refused and the second half is done. -/
inductive Stage where
  | whole
  | opened
  | started
  | installed
  | refused
  deriving Repr, DecidableEq

/-- A change of the deadline: the generation that its first half opened, and how far
    it has come. -/
structure Change where
  generation : UInt64
  stage : Stage
  deriving Repr, DecidableEq

/-- A change whose deadline is still to come has a second half. -/
def Stage.ofDeadline (now : Nat) : Option Instant → Stage
  | none => .whole
  | some deadline => if deadline.hasCome now then .whole else .opened

/-- A buffer and the changes of its deadline so far, in the order of their first
    halves. The timer of a change has the change's number. -/
structure System where
  buffer : Buffer
  changes : List Change := []

/-- What can happen to a buffer and its deadline. -/
inductive Event where
  | write (chunk : Bytes)
  | read (id : Nat) (call : Call)
  | close
  | set (now : Nat) (deadline : Option Instant)
  | start (k : Nat)
  | install (k : Nat)
  | refuse (k : Nat)
  | callback (k : Nat)

namespace System

/-- A new buffer, whose deadline was never changed. -/
def ofConfig (c : Config) : System where
  buffer := .ofConfig c

/-- The change of the given number, brought to a further stage. -/
def advance (s : System) (k : Nat) (stage : Stage) : System :=
  { s with changes := s.changes.modify k fun c => { c with stage } }

/-- One event, if it can happen: a thread is started or refused for a change that
    was opened, the second half of a start follows the start, and a callback needs a
    thread that was started. -/
def step (s : System) : Event → Option System
  | .write chunk => some { s with buffer := (s.buffer.write chunk).1 }
  | .read id call => some { s with buffer := (s.buffer.read { id, call }).1 }
  | .close => some { s with buffer := s.buffer.close.1 }
  | .set now deadline =>
    let buffer := (s.buffer.startDeadline now deadline).1
    let c : Change := { generation := buffer.state.generation, stage := .ofDeadline now deadline }
    some { buffer, changes := s.changes ++ [c] }
  | .start k =>
    match s.changes[k]? with
    | some { stage := .opened, .. } =>
      if isThreadName s.buffer.threadName then some (s.advance k .started) else none
    | _ => none
  | .install k =>
    match s.changes[k]? with
    | some { stage := .started, generation } =>
      some ({ s with buffer := (s.buffer.install generation k).1 }.advance k .installed)
    | _ => none
  | .refuse k =>
    match s.changes[k]? with
    | some { stage := .opened, generation } =>
      if isThreadName s.buffer.threadName then
        some ({ s with buffer := (s.buffer.startRefused generation).1 }.advance k .refused)
      else none
    | _ => none
  | .callback k =>
    match s.changes[k]? with
    | some { stage := .started, generation } | some { stage := .installed, generation } =>
      some { s with buffer := (s.buffer.fire generation).1 }
    | _ => none

theorem eq_of_step_start {s t : System} {k : Nat} (h : s.step (.start k) = some t) :
    ∃ c : Change, s.changes[k]? = some c ∧ c.stage = .opened ∧ t = s.advance k .started := by
  simp only [step] at h
  split at h
  · rename_i generation hc
    split at h
    · exact ⟨_, hc, rfl, (Option.some.inj h).symm⟩
    · cases h
  · cases h

theorem eq_of_step_install {s t : System} {k : Nat} (h : s.step (.install k) = some t) :
    ∃ c : Change, s.changes[k]? = some c ∧ c.stage = .started
      ∧ t = { s with buffer := (s.buffer.install c.generation k).1 }.advance k .installed := by
  simp only [step] at h
  split at h
  · rename_i generation hc
    exact ⟨_, hc, rfl, (Option.some.inj h).symm⟩
  · cases h

theorem eq_of_step_refuse {s t : System} {k : Nat} (h : s.step (.refuse k) = some t) :
    ∃ c : Change, s.changes[k]? = some c ∧ c.stage = .opened
      ∧ t = { s with buffer := (s.buffer.startRefused c.generation).1 }.advance k .refused := by
  simp only [step] at h
  split at h
  · rename_i generation hc
    split at h
    · exact ⟨_, hc, rfl, (Option.some.inj h).symm⟩
    · cases h
  · cases h

theorem eq_of_step_callback {s t : System} {k : Nat} (h : s.step (.callback k) = some t) :
    ∃ c : Change, s.changes[k]? = some c ∧ (c.stage = .started ∨ c.stage = .installed)
      ∧ t = { s with buffer := (s.buffer.fire c.generation).1 } := by
  simp only [step] at h
  split at h
  · rename_i generation hc
    exact ⟨_, hc, Or.inl rfl, (Option.some.inj h).symm⟩
  · rename_i generation hc
    exact ⟨_, hc, Or.inr rfl, (Option.some.inj h).symm⟩
  · cases h

@[simp] theorem length_advance (s : System) (k : Nat) (stage : Stage) :
    (s.advance k stage).changes.length = s.changes.length :=
  List.length_modify _ _ _

/-- Events one after the other, if all of them can happen. -/
def run (s : System) : List Event → Option System
  | [] => some s
  | e :: rest => (s.step e).bind fun t => t.run rest

/-- No event renames the timer threads. -/
theorem threadName_step {s t : System} {e : Event} (h : s.step e = some t) :
    t.buffer.threadName = s.buffer.threadName := by
  cases e with
  | write chunk =>
    obtain rfl : _ = t := Option.some.inj h
    exact Buffer.threadName_act s.buffer (.write chunk)
  | read id call =>
    obtain rfl : _ = t := Option.some.inj h
    exact Buffer.threadName_act s.buffer (.read id call)
  | close =>
    obtain rfl : _ = t := Option.some.inj h
    exact Buffer.threadName_act s.buffer .close
  | set now deadline =>
    obtain rfl : _ = t := Option.some.inj h
    exact Buffer.threadName_act s.buffer (.startDeadline now deadline)
  | start k =>
    obtain ⟨c, -, -, rfl⟩ := eq_of_step_start h
    rfl
  | install k =>
    obtain ⟨c, -, -, rfl⟩ := eq_of_step_install h
    exact Buffer.threadName_act s.buffer (.install c.generation k)
  | refuse k =>
    obtain ⟨c, -, -, rfl⟩ := eq_of_step_refuse h
    exact Buffer.threadName_act s.buffer (.startRefused c.generation)
  | callback k =>
    obtain ⟨c, -, -, rfl⟩ := eq_of_step_callback h
    exact Buffer.threadName_act s.buffer (.fire c.generation)

theorem threadName_run {s t : System} {events : List Event} (h : s.run events = some t) :
    t.buffer.threadName = s.buffer.threadName := by
  induction events generalizing s with
  | nil =>
    obtain rfl : s = t := Option.some.inj h
    rfl
  | cons e rest ih =>
    obtain ⟨mid, hstep, hrest⟩ := Option.bind_eq_some_iff.mp h
    exact (ih hrest).trans (threadName_step hstep)

/-- With a name that a thread can bear, a change that was opened can go on either
    way, whatever came before. -/
theorem exists_step_of_opened {c : Config} {events : List Event} {s : System} {k : Nat}
    {d : Change} (hname : isThreadName c.timerThreadName = true)
    (hrun : (ofConfig c).run events = some s) (hd : s.changes[k]? = some d)
    (hopened : d.stage = .opened) :
    (∃ t, s.step (.start k) = some t) ∧ ∃ t, s.step (.refuse k) = some t := by
  obtain ⟨generation, stage⟩ := d
  obtain rfl : stage = .opened := hopened
  have hname' : isThreadName s.buffer.threadName = true := by
    rw [threadName_run hrun]
    exact hname
  constructor
  · refine ⟨s.advance k .started, ?_⟩
    simp only [step, hd, hname', if_true]
  · refine ⟨{ s with buffer := (s.buffer.startRefused generation).1 }.advance k .refused, ?_⟩
    simp only [step, hd, hname', if_true]

end System

/-! ## The deadline as users see it -/

/-- There is no deadline; it is pending since the change of the given number; or it
    was reached. -/
inductive View where
  | none
  | pending (k : Nat)
  | reached
  deriving Repr, DecidableEq

namespace View

/-- The deadline is reached if it is the given change's; nothing happens if not. -/
def reach (v : View) (k : Nat) : View := if v = .pending k then .reached else v

/-- Closing calls a pending deadline off. -/
def callOff : View → View
  | .pending _ => .none
  | v => v

/-- What a change of the given number makes of the deadline, at a reading of the
    clock. -/
def ofDeadline (now k : Nat) : Option Instant → View
  | .none => .none
  | .some deadline => if deadline.hasCome now then .reached else .pending k

/-- What an event makes of the deadline, when `k` is the number of the next change. -/
def step (v : View) (k : Nat) : Event → View
  | .set now deadline => ofDeadline now k deadline
  | .close => v.callOff
  | .callback j | .refuse j => v.reach j
  | .write _ | .read _ _ | .start _ | .install _ => v

end View

/-- The number of changes of the deadline that an event begins. -/
def Event.sets : Event → Nat
  | .set _ _ => 1
  | _ => 0

/-- The number of generations that an event opens: one for a change of the deadline,
    and one for closing. -/
def Event.generations : Event → Nat
  | .set _ _ | .close => 1
  | _ => 0

/-- What a list of events makes of the deadline, when `k` is the number of the next
    change. -/
def View.run (v : View) (k : Nat) : List Event → View
  | [] => v
  | e :: rest => View.run (v.step k e) (k + e.sets) rest

/-- The number of generations that a list of events opens. -/
def generations : List Event → Nat
  | [] => 0
  | e :: rest => e.generations + generations rest

end Deadline

end StreamBuffer
