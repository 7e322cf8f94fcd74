/-
  StreamBuffer.Proofs.Session.Boundary

  A session between two of its steps, the steps that run inside a change of a deadline
  included.

  `Boundary s ops seen underway t` says that `t` is such a session while `ops` run from
  `s`, and what was told by then: `seen` are the reports made, and `underway` are the
  calls that ended in the first half of a change which is still open, so that its own
  report is still to come. Sessions at a boundary are led to by actions
  (`Boundary.leads`); hence every buffer at every boundary is reachable
  (`reachable_of_boundary`).
-/
import StreamBuffer.Proofs.Session.Action

namespace StreamBuffer

/-- The handle that an operation goes through, or that its report looks through. -/
def Op.handle : Op → Nat
  | .create h _ | .share h | .drop h | .write h _ | .close h | .inspect h | .read h _
  | .deadline h _ _ _ | .elapse h => h

namespace Session

/-! ## Step boundaries -/

/-- `t` is the session between two steps of the operations run from `s`: before the
    first, after a step, or between two steps inside a change of a deadline. Reports on
    steps that are over come in order; calls ended by the first half of a change that
    is still open are told apart. -/
inductive Boundary : Session → List Op → List Report → List (Nat × Outcome) → Session → Prop where
  | here (s : Session) (ops : List Op) : Boundary s ops [] [] s
  | next {s t : Session} {op : Op} {ops : List Op} {seen : List Report}
      {underway : List (Nat × Outcome)} (h : Boundary (op.run s).1 ops seen underway t) :
      Boundary s (op :: ops) ((op.run s).2 :: seen) underway t
  | inside {s t first : Session} {e : Effects} {a : Arming} {handle b : Nat}
      {lead : Option Lead} {during ops : List Op} {launch : Launch} {seen : List Report}
      {underway : List (Nat × Outcome)} (hhandle : s.bufferOf? handle = some b)
      (hfirst : s.startDeadline b lead = (first, e, .inFlight a))
      (h : Boundary first during seen underway t) :
      Boundary s (.deadline handle lead during launch :: ops) seen (e.ended ++ underway) t

/-- The whole run is a boundary, and its reports are those seen. -/
theorem boundary_runAll (s : Session) (ops : List Op) :
    Boundary s ops (Op.runAll ops s).2 [] (Op.runAll ops s).1 := by
  induction ops generalizing s with
  | nil => exact .here s []
  | cons op rest ih => exact .next (ih (op.run s).1)

/-- A boundary of what follows a run is one of both together. -/
theorem Boundary.after {s t : Session} {before ops : List Op} {seen : List Report}
    {underway : List (Nat × Outcome)}
    (h : Boundary (Op.runAll before s).1 ops seen underway t) :
    Boundary s (before ++ ops) ((Op.runAll before s).2 ++ seen) underway t := by
  induction before generalizing s with
  | nil => exact h
  | cons op rest ih => exact .next (ih h)

theorem Boundary.leads {s t : Session} {ops : List Op} {seen : List Report}
    {underway : List (Nat × Outcome)} (h : Boundary s ops seen underway t) : s.Leads t := by
  induction h with
  | here s ops => exact .refl s
  | @next s t op ops seen underway _ ih => exact (Op.leads_run op s).trans ih
  | @inside s t first e a handle b lead during ops launch seen underway _ hfirst _ ih =>
    have hleads := (s.acts_startDeadline b lead).leads
    rw [hfirst] at hleads
    exact hleads.trans ih

/-- At every boundary of a session, every buffer is reachable. -/
theorem reachable_of_boundary {s : Session} {c : Config} {ops : List Op} {seen : List Report}
    {underway : List (Nat × Outcome)}
    (h : Boundary (({} : Session).create c).1 ops seen underway s) :
    ∀ buffer ∈ s.buffers, buffer.Reachable := by
  refine h.leads.invariant Buffer.Reachable.ofConfig (fun b a hb => hb.act a) ?_
  intro buffer hmem
  obtain rfl : buffer = .ofConfig c := List.mem_singleton.mp hmem
  exact .ofConfig c

end Session

end StreamBuffer
