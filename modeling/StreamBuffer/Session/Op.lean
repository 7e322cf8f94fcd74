/-
  StreamBuffer.Session.Op

  Running a session from a list of operations, with a report on each. A change of
  a deadline holds operations of its own, which run between its two halves, and
  its report holds theirs.

  An operation names a handle; where no buffer goes by it, nothing happens and
  nothing is reported but that. Making a buffer and letting time pass need none:
  there the handle only says what the report looks at.

  The operation holds on to the buffer it found by its handle until its report is
  made, so the report looks at that buffer even if the handle was dropped meanwhile,
  and at none if the handle came to be only through the operation.
-/
import StreamBuffer.Session.Basic

namespace StreamBuffer

/-- An operation of a session. -/
inductive Op where
  | create (h : Nat) (config : Config)
  | share (h : Nat)
  | drop (h : Nat)
  | write (h : Nat) (chunk : Bytes)
  | close (h : Nat)
  | inspect (h : Nat)
  | read (h : Nat) (call : Call)
  | deadline (h : Nat) (lead : Option Lead) (during : List Op) (launch : Launch)
  | elapse (h : Nat)

/-- What an operation answers: nothing more, the place of a new handle, a summary,
    a read call's outcome, or the number under which it waits; that a deadline was
    set, or that it was abandoned because of the thread's name. -/
inductive Answer where
  | done
  | handle (n : Nat)
  | summary (s : Summary)
  | ended (outcome : Outcome)
  | blocked (id : Nat)
  | deadlineSet
  | badThreadName
  deriving Repr, DecidableEq

/-- The report on an operation: its answer; the reports on the operations that ran
    during it, if any could; the earlier readers that ended, by number; the
    readers that wait for the handle's buffer after it; the events shown; and the
    summary of the handle's buffer, unless the operation dropped the handle. -/
inductive Report where
  | noHandle
  | step (answer : Answer) (during : Option (List Report)) (woken : List (Nat × Outcome))
      (waiting : List Nat) (events : List Event) (summary : Option Summary)

namespace Session

/-- The summary of a buffer. -/
def summary? (s : Session) (b : Nat) : Option Summary :=
  s.buffers[b]?.map fun buffer => buffer.state.summary

/-- The report after an operation on buffer `b`, or on none. -/
def report (s : Session) (b : Option Nat) (answer : Answer) (e : Effects)
    (during : Option (List Report)) : Report :=
  .step answer during
    (e.ended.mergeSort fun x y => x.1 ≤ y.1)
    (((b.map s.waitingIds).getD []).mergeSort fun x y => x ≤ y)
    (e.events.filter Event.isShown)
    (b.bind s.summary?)

/-- The report after a handle to buffer `b` was dropped: the buffer is seen no more,
    but readers may still wait for it. -/
def dropReport (s : Session) (b : Nat) : Report :=
  .step .done none [] ((s.waitingIds b).mergeSort fun x y => x ≤ y) [] none

/-- Run an operation through a handle on the buffer it refers to. -/
def withHandle (s : Session) (h : Nat) (f : Nat → Session × Report) : Session × Report :=
  match s.bufferOf? h with
  | none => (s, .noHandle)
  | some b => f b

end Session

mutual

/-- Run one operation. -/
def Op.run : Op → Session → Session × Report
  | .create h config, s =>
    let b := s.bufferOf? h
    let (s, n) := s.create config
    (s, s.report b (.handle n) {} none)
  | .share h, s => s.withHandle h fun b =>
    let (s, n) := s.share b
    (s, s.report b (.handle n) {} none)
  | .drop h, s => s.withHandle h fun b =>
    let s := s.drop h b
    (s, s.dropReport b)
  | .write h chunk, s => s.withHandle h fun b =>
    let (s, e) := s.write b chunk
    (s, s.report b .done e none)
  | .close h, s => s.withHandle h fun b =>
    let (s, e) := s.close b
    (s, s.report b .done e none)
  | .inspect h, s => s.withHandle h fun b =>
    let answer := ((s.summary? b).map Answer.summary).getD .done
    (s, s.report b answer {} none)
  | .read h call, s => s.withHandle h fun b =>
    let id := s.started
    let (s, e) := s.read b call
    let answer := match e.ended with
      | [] => Answer.blocked id
      | (_, outcome) :: _ => .ended outcome
    (s, s.report b answer { e with ended := [] } none)
  | .deadline h lead during launch, s => s.withHandle h fun b =>
    let (s, e₁, opening) := s.startDeadline b lead
    match opening with
    | .complete => (s, s.report b .deadlineSet e₁ none)
    | .badThreadName => (s, s.report b .badThreadName e₁ none)
    | .inFlight a =>
      let (s, reports) := Op.runAll during s
      let (s, e₂) := s.finishDeadline a launch
      (s.retire b, s.report b .deadlineSet (e₁ ++ e₂) (some reports))
  | .elapse h, s =>
    let b := s.bufferOf? h
    let (s, e) := s.elapse
    (s, s.report b .done e none)

/-- Run operations one after the other. -/
def Op.runAll : List Op → Session → Session × List Report
  | [], s => (s, [])
  | op :: ops, s =>
    let (s, r) := op.run s
    let (s, rs) := Op.runAll ops s
    (s, r :: rs)

end

/-- The reports on a whole session that begins with one buffer. -/
def Session.reports (config : Config) (ops : List Op) : List Report :=
  (Op.runAll ops (({} : Session).create config).1).2

end StreamBuffer
