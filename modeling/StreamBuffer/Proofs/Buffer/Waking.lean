/-
  StreamBuffer.Proofs.Buffer.Waking

  What waking readers does to a buffer: one of them, those of a list in order, or
  all that wait.

  `Served b out` says that readers ran on `b` and nothing else happened: the flags,
  the timer and the generation are those of `b`, and the bytes copied out, followed
  by those still unread, are those that `b` had unread. It composes (`Served.trans`),
  so that each way of waking needs one step only.

  Who waits afterwards is the second half: the readers not woken in their places,
  and behind them the woken ones that found nothing, in the order they were woken
  (`waiting_serveAll`).
-/
import StreamBuffer.Buffer.Basic
import StreamBuffer.Proofs.Reader.Progress

namespace StreamBuffer

/-! ## Effects in sequence -/

namespace Effects

@[simp] theorem copied_append (a b : Effects) : (a ++ b).copied = a.copied ++ b.copied := rfl

@[simp] theorem ended_append (a b : Effects) : (a ++ b).ended = a.ended ++ b.ended := rfl

@[simp] theorem released_append (a b : Effects) :
    (a ++ b).released = a.released ++ b.released := rfl

end Effects

/-! ## A reader's request -/

/-- What a reader was started for: its number and its call. It is the same however
    often the reader waits. -/
def Reader.request (r : Reader) : Nat × Call := (r.id, r.call)

/-- A stuck reader stays stuck while other readers run: they take no byte, for
    there is none. -/
theorem Reader.Stuck.mono {r : Reader} {s t : BufferState} {copied : Bytes} (h : r.Stuck s)
    (hcontrol : t.control = s.control) (hcopied : copied ++ t.queue.unread = s.queue.unread) :
    r.Stuck t := by
  obtain ⟨hclosed, hreached, -, -⟩ := BufferState.fields_of_control_eq hcontrol
  refine ⟨?_, ?_, ?_, h.want_pos⟩
  · rw [h.unread_eq_nil] at hcopied
    exact (List.append_eq_nil_iff.mp hcopied).2
  · exact hclosed.trans h.closed_eq_false
  · exact hreached.trans h.deadlineReached_eq_false

namespace Buffer

/-! ## Only readers ran -/

/-- Readers ran on `b`, came to `out`, and nothing else happened. -/
structure Served (b : Buffer) (out : Buffer × Effects) : Prop where
  threadName_eq : out.1.threadName = b.threadName
  control_eq : out.1.state.control = b.state.control
  copied_append_unread : out.2.copied ++ out.1.state.queue.unread = b.state.queue.unread
  released_eq_nil : out.2.released = []

theorem Served.refl (b : Buffer) : b.Served (b, {}) := ⟨rfl, rfl, rfl, rfl⟩

theorem Served.trans {b : Buffer} {out₁ out₂ : Buffer × Effects} (h₁ : b.Served out₁)
    (h₂ : out₁.1.Served out₂) : b.Served (out₂.1, out₁.2 ++ out₂.2) := by
  refine ⟨?_, ?_, ?_, ?_⟩
  · exact h₂.threadName_eq.trans h₁.threadName_eq
  · exact h₂.control_eq.trans h₁.control_eq
  · rw [Effects.copied_append, List.append_assoc, h₂.copied_append_unread,
      h₁.copied_append_unread]
  · rw [Effects.released_append, h₁.released_eq_nil, h₂.released_eq_nil, List.append_nil]

/-- A queue with no byte unread has none after readers ran. -/
theorem Served.unread_eq_nil {b : Buffer} {out : Buffer × Effects} (h : b.Served out)
    (hnil : b.state.queue.unread = []) : out.1.state.queue.unread = [] := by
  have hcopied := h.copied_append_unread
  rw [hnil] at hcopied
  exact (List.append_eq_nil_iff.mp hcopied).2

/-! ## One reader -/

/-- A reader that is done leaves the line as it was. -/
theorem accept_of_ended {a : Advance} {outcome : Outcome} (b : Buffer) (id : Nat)
    (h : a.standing = .inl outcome) :
    b.accept id a = ({ b with state := a.state },
      { events := a.events, ended := [(id, outcome)], copied := a.copied }) := by
  rw [accept, h]

/-- A reader that is not done stands behind the others. -/
theorem accept_of_waits {a : Advance} {r : Reader} (b : Buffer) (id : Nat)
    (h : a.standing = .inr r) :
    b.accept id a = ({ b with state := a.state, waiting := b.waiting ++ [r] },
      { events := a.events, copied := a.copied }) := by
  rw [accept, h]

/-- Either way the state is the one that the reader left. -/
theorem state_accept (b : Buffer) (id : Nat) (a : Advance) : (b.accept id a).1.state = a.state := by
  rw [accept]
  split <;> rfl

/-- Taking over how far a reader came keeps what the reader kept. -/
theorem accept_served {b : Buffer} (id : Nat) {a : Advance}
    (hcontrol : a.state.control = b.state.control)
    (hcopied : a.copied ++ a.state.queue.unread = b.state.queue.unread) :
    b.Served (b.accept id a) := by
  cases hstanding : a.standing with
  | inl outcome =>
    rw [accept_of_ended b id hstanding]
    exact ⟨rfl, hcontrol, hcopied, rfl⟩
  | inr r =>
    rw [accept_of_waits b id hstanding]
    exact ⟨rfl, hcontrol, hcopied, rfl⟩

/-- A reader's run leaves the line as it was, or leaves the reader behind it, stuck,
    if those that a run leaves waiting are stuck. -/
theorem waiting_accept {b : Buffer} {r : Reader} {a : Advance}
    (hstuck : ∀ r', a.standing = .inr r' →
      r'.id = r.id ∧ r'.call = r.call ∧ r'.Stuck a.state) :
    (b.accept r.id a).1.waiting = b.waiting
      ∨ ∃ r', (b.accept r.id a).1.waiting = b.waiting ++ [r'] ∧ r'.request = r.request
          ∧ r'.Stuck (b.accept r.id a).1.state := by
  cases hstanding : a.standing with
  | inl outcome =>
    left
    rw [accept_of_ended b r.id hstanding]
  | inr r' =>
    right
    obtain ⟨hid, hcall, hr'⟩ := hstuck r' hstanding
    rw [accept_of_waits b r.id hstanding]
    refine ⟨r', rfl, ?_, hr'⟩
    rw [Reader.request, Reader.request, hid, hcall]

theorem serve_served (b : Buffer) (r : Reader) : b.Served (b.serve r) :=
  accept_served r.id (Reader.proceed_control r b.state false)
    (Reader.proceed_copied_append_unread r b.state false)

/-- A woken reader either is done, or stands stuck behind the others. -/
theorem waiting_serve (b : Buffer) (r : Reader) :
    (b.serve r).1.waiting = b.waiting
      ∨ ∃ r', (b.serve r).1.waiting = b.waiting ++ [r'] ∧ r'.request = r.request
          ∧ r'.Stuck (b.serve r).1.state :=
  waiting_accept fun _ hstanding => Reader.stuck_of_proceed hstanding

theorem read_served (b : Buffer) (r : Reader) : b.Served (b.read r) :=
  accept_served r.id (Reader.start_control r b.state)
    (Reader.start_copied_append_unread r b.state)

/-- A call that is started either is done, or stands stuck behind the others. -/
theorem waiting_read (b : Buffer) (r : Reader) :
    (b.read r).1.waiting = b.waiting
      ∨ ∃ r', (b.read r).1.waiting = b.waiting ++ [r'] ∧ r'.request = r.request
          ∧ r'.Stuck (b.read r).1.state :=
  waiting_accept fun _ hstanding => Reader.stuck_of_start hstanding

/-! ## Several readers -/

theorem serveAll_served (b : Buffer) (readers : List Reader) : b.Served (b.serveAll readers) := by
  induction readers generalizing b with
  | nil => exact Served.refl b
  | cons r rest ih => exact (serve_served b r).trans (ih (b.serve r).1)

/-- After a list of readers was woken, those that wait are those that waited
    already, and behind them woken ones, stuck, in the order they were woken. -/
theorem waiting_serveAll (b : Buffer) (readers : List Reader) :
    ∃ left : List Reader, (b.serveAll readers).1.waiting = b.waiting ++ left
      ∧ (left.map Reader.request).Sublist (readers.map Reader.request)
      ∧ ∀ r ∈ left, r.Stuck (b.serveAll readers).1.state := by
  induction readers generalizing b with
  | nil => exact ⟨[], (List.append_nil _).symm, List.Sublist.refl _, by simp⟩
  | cons r rest ih =>
    obtain ⟨left, hwaiting, hsub, hstuck⟩ := ih (b.serve r).1
    rcases waiting_serve b r with hdone | ⟨r', hbehind, hrequest, hr'⟩
    · refine ⟨left, ?_, ?_, hstuck⟩
      · rw [← hdone]
        exact hwaiting
      · exact hsub.cons r.request
    · refine ⟨r' :: left, ?_, ?_, ?_⟩
      · show ((b.serve r).1.serveAll rest).1.waiting = b.waiting ++ r' :: left
        rw [hwaiting, hbehind, List.append_assoc, List.singleton_append]
      · rw [List.map_cons, List.map_cons, hrequest]
        exact hsub.cons_cons r.request
      · intro x hx
        rcases List.mem_cons.mp hx with rfl | hx
        · -- `r'` stands stuck while the rest is served, since there is no byte to take
          have hserved := serveAll_served (b.serve r).1 rest
          exact hr'.mono hserved.control_eq hserved.copied_append_unread
        · exact hstuck x hx

/-! ## Waking all, and waking one -/

theorem wakeAll_served (b : Buffer) : b.Served b.wakeAll := by
  -- `Served` does not speak of the line, so that it may be cleared first
  have h := serveAll_served { b with waiting := [] } b.waiting
  exact ⟨h.threadName_eq, h.control_eq, h.copied_append_unread, h.released_eq_nil⟩

/-- After all were woken, those that wait are woken ones, stuck, in their old
    order. -/
theorem waiting_wakeAll (b : Buffer) :
    (b.wakeAll.1.waiting.map Reader.request).Sublist (b.waiting.map Reader.request)
      ∧ ∀ r ∈ b.wakeAll.1.waiting, r.Stuck b.wakeAll.1.state := by
  obtain ⟨left, hwaiting, hsub, hstuck⟩ := waiting_serveAll { b with waiting := [] } b.waiting
  have hleft : b.wakeAll.1.waiting = left := hwaiting
  rw [hleft]
  exact ⟨hsub, hstuck⟩

theorem wakeAll_of_waiting_nil {b : Buffer} (h : b.waiting = []) : b.wakeAll = (b, {}) := by
  obtain ⟨threadName, state, waiting⟩ := b
  obtain rfl : waiting = [] := h
  rfl

theorem wakeOne_of_waiting_nil {b : Buffer} (h : b.waiting = []) : b.wakeOne = (b, {}) := by
  rw [wakeOne, h]

theorem wakeOne_served (b : Buffer) : b.Served b.wakeOne := by
  rw [wakeOne]
  split
  · exact Served.refl b
  · rename_i r rest h
    have hserved := serve_served { b with waiting := rest } r
    exact ⟨hserved.threadName_eq, hserved.control_eq, hserved.copied_append_unread,
      hserved.released_eq_nil⟩

/-- A write gives up no timer. -/
theorem released_write (b : Buffer) (chunk : Bytes) : (b.write chunk).2.released = [] :=
  (wakeOne_served
    { b with state := { b.state with queue := b.state.queue.append chunk } }).released_eq_nil

/-- After the reader that waited longest was woken, the others keep their places,
    and it stands behind them if it is stuck. -/
theorem waiting_wakeOne (b : Buffer) :
    b.wakeOne.1.waiting = b.waiting.tail
      ∨ ∃ r, b.wakeOne.1.waiting = b.waiting.tail ++ [r] ∧ r.Stuck b.wakeOne.1.state := by
  rw [wakeOne]
  split
  · rename_i h
    left
    rw [h]
    rfl
  · rename_i r rest h
    rw [h]
    rcases waiting_serve { b with waiting := rest } r with hdone | ⟨r', hbehind, -, hstuck⟩
    · exact Or.inl hdone
    · exact Or.inr ⟨r', hbehind, hstuck⟩

end Buffer

end StreamBuffer
