/-
  StreamBuffer.Proofs.Buffer.Rewaking

  Waking everybody twice in a row.

  A reader that waits again has looked at a queue without an unread byte, with room in its
  destination, and such a look gives up the exhausted segments too. So when everybody was
  woken, either nobody waits or the queue holds nothing (`settled_wakeAll`), and to wake
  everybody once more ends no call, changes nothing and keeps the line in its order
  (`wakeAll_of_settled`).

  Hence to close a buffer again, or to set the same deadline again, opens a generation and does
  nothing else to the buffer (`close_close`, `startDeadline_startDeadline`,
  `reachDeadline_startDeadline_reachDeadline`).
-/
import StreamBuffer.Proofs.Buffer.Action
import StreamBuffer.Proofs.Buffer.Renumber
import StreamBuffer.Proofs.Queue.Additive

namespace StreamBuffer

/-! ## Queues without an unread byte -/

/-- A drain with room gives up every segment where no byte is unread. -/
theorem Segment.drain_of_unread_eq_nil {room : Nat} (hroom : 0 < room) {segments : List Segment}
    (h : segments.flatMap Segment.unread = []) : Segment.drain room segments = ([], []) := by
  have hbytes : (drain room segments).1 = [] := by
    rw [drain_fst, h, List.take_nil]
  have hleft : (drain room segments).2 = [] := by
    apply drain_of_length_lt
    rw [h]
    exact hroom
  exact Prod.ext hbytes hleft

theorem SegmentQueue.drain_of_unread_eq_nil {n : Nat} (hn : 0 < n) {q : SegmentQueue}
    (h : q.unread = []) : q.drain n = ([], {}) := by
  rw [drain, Segment.drain_of_unread_eq_nil hn h]

theorem SegmentQueue.drain_empty (n : Nat) : ({} : SegmentQueue).drain n = ([], {}) := by
  cases n <;> rfl

/-! ## Readers that find nothing -/

namespace Reader

/-- A look leaves an empty queue empty. -/
theorem queue_look_of_empty {s : BufferState} (h : s.queue = {}) (r : Reader) (entering : Bool) :
    (r.look s entering).2.queue = {} := by
  have hattempt : (s.attempt r.want).2.queue = {} := by
    rw [BufferState.attempt_eq, h, SegmentQueue.drain_empty]
  cases entering with
  | false => exact hattempt
  | true =>
    show (s.enter r.want).2.queue = {}
    rw [BufferState.enter]
    split
    · exact h
    · exact hattempt

theorem queue_proceed_of_empty {s : BufferState} (h : s.queue = {}) (r : Reader)
    (entering : Bool) : (r.proceed s entering).state.queue = {} := by
  fun_induction proceed r s entering with
  | case1 r s entering a outcome hs => exact queue_look_of_empty h r entering
  | case2 r s entering a hs => exact queue_look_of_empty h r entering
  | case3 r s entering a r' hs rest ih => exact ih (queue_look_of_empty h r entering)

/-- A look that comes to nothing leaves an empty queue. -/
theorem look_of_nothing {r : Reader} {s : BufferState} {entering : Bool}
    (h : (r.look s entering).1 = .nothing) : (r.look s entering).2 = { s with queue := {} } := by
  obtain ⟨hwant, hunread, -, hreached⟩ := (look_eq_nothing_iff r s entering).mp h
  have hattempt : (s.attempt r.want).2 = { s with queue := {} } := by
    rw [BufferState.attempt_eq, SegmentQueue.drain_of_unread_eq_nil hwant hunread]
  cases entering with
  | false => exact hattempt
  | true =>
    show (s.enter r.want).2 = { s with queue := {} }
    rw [BufferState.enter, if_neg (by rw [hreached]; exact Bool.false_ne_true)]
    exact hattempt

/-- A reader that a run leaves waiting leaves an empty queue. -/
theorem queue_proceed_of_waits {r r' : Reader} {s : BufferState} {entering : Bool}
    (h : (r.proceed s entering).standing = .inr r') :
    (r.proceed s entering).state.queue = {} := by
  fun_induction proceed r s entering with
  | case1 r s entering a outcome hs => cases h
  | case2 r s entering a hs =>
    have hnothing : a.1 = .nothing := (settle_eq_waits_iff r a.1).mp hs
    exact congrArg BufferState.queue (look_of_nothing hnothing)
  | case3 r s entering a r'' hs rest ih => exact ih h

/-- A stuck reader that runs records that it waits again, and leaves no segment. -/
theorem proceed_of_stuck {r : Reader} {s : BufferState} (h : r.Stuck s) (entering : Bool) :
    (r.proceed s entering).standing = .inr r
      ∧ (r.proceed s entering).state = { s with queue := {} }
      ∧ (r.proceed s entering).events = [.blocking r.call.repeats] := by
  have hnothing : (r.look s entering).1 = .nothing :=
    (look_eq_nothing_iff r s entering).mpr
      ⟨h.want_pos, h.unread_eq_nil, h.closed_eq_false, h.deadlineReached_eq_false⟩
  rw [proceed_of_waits ((settle_eq_waits_iff r _).mpr hnothing)]
  exact ⟨rfl, look_of_nothing hnothing, by rw [hnothing]; rfl⟩

end Reader

namespace Buffer

/-! ## Buffers at rest -/

/-- Every reader that waits is stuck, and if any waits the queue holds no segment. -/
def Settled (b : Buffer) : Prop := ∀ r ∈ b.waiting, r.Stuck b.state ∧ b.state.queue = {}

/-- While a reader runs, the queue stays empty beside those that wait, or comes to be. -/
theorem queue_serve_of_waiting {b : Buffer} (h : b.waiting ≠ [] → b.state.queue = {}) (r : Reader) :
    (b.serve r).1.waiting ≠ [] → (b.serve r).1.state.queue = {} := by
  intro hne
  have hstate : (b.serve r).1.state = (r.proceed b.state false).state := state_accept b r.id _
  rw [hstate]
  cases hstanding : (r.proceed b.state false).standing with
  | inl outcome =>
    have hline : (b.serve r).1.waiting = b.waiting := by
      rw [serve, Reader.resume, accept_of_ended b r.id hstanding]
    rw [hline] at hne
    exact Reader.queue_proceed_of_empty (h hne) r false
  | inr r' => exact Reader.queue_proceed_of_waits hstanding

theorem queue_serveAll_of_waiting {b : Buffer} (h : b.waiting ≠ [] → b.state.queue = {})
    (readers : List Reader) :
    (b.serveAll readers).1.waiting ≠ [] → (b.serveAll readers).1.state.queue = {} := by
  induction readers generalizing b with
  | nil => exact h
  | cons r rest ih => exact ih (queue_serve_of_waiting h r)

/-- When everybody was woken, who waits is at rest. -/
theorem settled_wakeAll (b : Buffer) : b.wakeAll.1.Settled := by
  intro r hr
  refine ⟨(waiting_wakeAll b).2 r hr, ?_⟩
  exact queue_serveAll_of_waiting (b := { b with waiting := [] }) (fun h => absurd rfl h) b.waiting
    (List.ne_nil_of_mem hr)

/-- Readers at rest wait again behind the others, in their order. -/
theorem serveAll_of_stuck {b : Buffer} {readers : List Reader}
    (h : ∀ r ∈ readers, r.Stuck b.state ∧ b.state.queue = {}) :
    (b.serveAll readers).1 = { b with waiting := b.waiting ++ readers }
      ∧ (b.serveAll readers).2.ended = [] := by
  induction readers generalizing b with
  | nil => exact ⟨by rw [List.append_nil]; rfl, rfl⟩
  | cons r rest ih =>
    obtain ⟨hstuck, hqueue⟩ := h r List.mem_cons_self
    obtain ⟨hstanding, hstate, -⟩ := Reader.proceed_of_stuck hstuck false
    rw [← hqueue] at hstate
    have hserve : b.serve r = ({ b with waiting := b.waiting ++ [r] },
        { events := (r.proceed b.state false).events
          copied := (r.proceed b.state false).copied }) := by
      rw [serve, Reader.resume, accept_of_waits b r.id hstanding, hstate]
    obtain ⟨hrest, hended⟩ := ih (b := { b with waiting := b.waiting ++ [r] })
      fun x hx => h x (List.mem_cons_of_mem r hx)
    rw [serveAll, hserve]
    refine ⟨?_, hended⟩
    rw [hrest, List.append_assoc, List.singleton_append]

/-- To wake everybody at rest changes nothing and ends no call. -/
theorem wakeAll_of_settled {b : Buffer} (h : b.Settled) :
    b.wakeAll.1 = b ∧ b.wakeAll.2.ended = [] :=
  serveAll_of_stuck (b := { b with waiting := [] }) h

/-- Where a flag is set, nobody is left when everybody was woken. -/
theorem waiting_wakeAll_of_flag {b : Buffer}
    (h : b.state.closed = true ∨ b.state.deadlineReached = true) : b.wakeAll.1.waiting = [] := by
  obtain ⟨hclosed, hreached, -, -⟩ := BufferState.fields_of_control_eq (wakeAll_served b).control_eq
  refine List.eq_nil_iff_forall_not_mem.mpr fun r hr => ?_
  obtain ⟨-, hopen, hahead, -⟩ := (waiting_wakeAll b).2 r hr
  rw [hclosed] at hopen
  rw [hreached] at hahead
  rcases h with h | h
  · cases h.symm.trans hopen
  · cases h.symm.trans hahead

/-! ## The same again -/

/-- The buffer in its next generation, and without a timer. -/
def refreshed (b : Buffer) : Buffer := b.renumber id (b.state.generation + 1) none

theorem refreshed_eq (b : Buffer) : b.refreshed = { b with state := b.state.nextGeneration } := by
  have hid : Reader.renumber id = id := rfl
  rw [refreshed, renumber, hid, List.map_id]
  rfl

/-- To wake everybody at rest in the next generation. -/
theorem wakeAll_refreshed {b : Buffer} (h : b.Settled) :
    b.refreshed.wakeAll.1 = b.refreshed ∧ b.refreshed.wakeAll.2.ended = [] := by
  obtain ⟨hsame, hended⟩ := wakeAll_of_settled h
  rw [refreshed, wakeAll_renumber, Prod.map_fst, Prod.map_snd, hsame]
  refine ⟨rfl, ?_⟩
  show renumberEnded id b.wakeAll.2.ended = []
  rw [hended]
  rfl

/-- To close a closed buffer opens a generation, and does nothing else. -/
theorem close_close (b : Buffer) :
    b.close.1.close.1 = b.close.1.refreshed ∧ b.close.1.close.2.ended = [] := by
  have hsettled : b.close.1.Settled := settled_wakeAll _
  have hclosed : b.close.1.state.closed = true := (fields_act b .close).1
  have hsame : ({ b.close.1 with
      state := { b.close.1.state.nextGeneration with closed := true } } : Buffer)
      = b.close.1.refreshed := by
    rw [refreshed_eq, ← hclosed]
    rfl
  have hwake := wakeAll_refreshed hsettled
  rw [← hsame] at hwake ⊢
  exact hwake

/-- So does the first half of a change to the same deadline, at the same reading of the
    clock. -/
theorem startDeadline_startDeadline (b : Buffer) (now : Nat) (deadline : Option Instant) :
    let first := (b.startDeadline now deadline).1
    (first.startDeadline now deadline).1 = first.refreshed
      ∧ (first.startDeadline now deadline).2.ended = [] := by
  intro first
  have hsettled : first.Settled := settled_wakeAll _
  have hreached : first.state.deadlineReached = deadline.any (Instant.hasCome now) :=
    (fields_act b (.startDeadline now deadline)).2.1
  have hsame : ({ first with state := { first.state.nextGeneration with
      deadlineReached := deadline.any (Instant.hasCome now) } } : Buffer) = first.refreshed := by
    rw [refreshed_eq, ← hreached]
    rfl
  have hwake := wakeAll_refreshed hsettled
  rw [← hsame] at hwake ⊢
  exact hwake

/-- A deadline that was reached, set again, and reached again: nobody waits any more. -/
theorem reachDeadline_startDeadline_reachDeadline (b : Buffer) (now : Nat)
    (deadline : Option Instant) :
    let reached := b.reachDeadline.1
    let again := (reached.startDeadline now deadline).1
    again.reachDeadline.1 = reached.refreshed
      ∧ (reached.startDeadline now deadline).2.ended = [] ∧ again.reachDeadline.2.ended = [] := by
  intro reached again
  have hnobody : reached.waiting = [] := waiting_wakeAll_of_flag (Or.inr rfl)
  have hflag : reached.state.deadlineReached = true :=
    (BufferState.fields_of_control_eq (wakeAll_served
      { b with state := { b.state with deadlineReached := true } }).control_eq).2.1
  let opened : Buffer := { reached with state := { reached.state.nextGeneration with
    deadlineReached := deadline.any (Instant.hasCome now) } }
  have hopened : opened.wakeAll = (opened, {}) := wakeAll_of_waiting_nil hnobody
  have hagain : again = opened := congrArg Prod.fst hopened
  have hlast : ({ opened with state := { opened.state with deadlineReached := true } } :
      Buffer).wakeAll = (_, {}) := wakeAll_of_waiting_nil hnobody
  refine ⟨?_, congrArg (·.2.ended) hopened, ?_⟩
  · rw [hagain, reachDeadline, hlast, refreshed_eq, ← hflag]
    rfl
  · rw [hagain, reachDeadline, hlast]

end Buffer

end StreamBuffer
