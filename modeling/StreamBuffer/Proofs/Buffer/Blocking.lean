/-
  StreamBuffer.Proofs.Buffer.Blocking

  When a read may go on waiting.

  The invariant is `WaitsOpen`: while any reader waits, the buffer is open, its
  deadline is not reached, and every waiting reader has room in its destination.
  Every action keeps it, since an action that touches a flag wakes everybody, and a
  woken reader waits again only if it is stuck.

  From it come the two halves of the theory. An action that sets a flag (`Ends`)
  ends every blocked read, in the order of the line and each as `Reader.conclude`
  says (`blocked_reads_end`). And no wake-up is lost (`no_lost_wakeup`): whenever
  everybody is woken (`Broadcasts`), nothing unread is left beside a reader that
  still waits; and as long as never two calls are blocked at a time, that is so at
  every moment, although a write wakes one reader only.
-/
import Mathlib.Data.List.Infix
import StreamBuffer.Proofs.Buffer.Action
import StreamBuffer.Proofs.Reader.Conclusion

namespace StreamBuffer

namespace Buffer

/-! ## Waiting readers wait at an open buffer -/

/-- Whoever waits has room in its destination, and neither flag is set. -/
def WaitsOpen (b : Buffer) : Prop :=
  ∀ r ∈ b.waiting, b.state.closed = false ∧ b.state.deadlineReached = false ∧ 0 < r.want

theorem waitsOpen_act {b : Buffer} (h : b.WaitsOpen) (a : Action) : (b.act a).1.WaitsOpen := by
  intro r hr
  rcases stuck_of_waiting_act hr with hstuck | ⟨hmem, hnot, -⟩
  · exact ⟨hstuck.closed_eq_false, hstuck.deadlineReached_eq_false, hstuck.want_pos⟩
  · -- it was not woken, and so the action touched no flag
    obtain ⟨hclosed, hreached, hwant⟩ := h r hmem
    obtain ⟨hclosed', hreached'⟩ := (flags_change b a).resolve_left hnot
    obtain ⟨hfclosed, hfreached, -, -⟩ := fields_act b a
    refine ⟨?_, ?_, hwant⟩
    · rw [hfclosed, hclosed', hclosed]
    · rw [hfreached, hreached', hreached]

theorem Reachable.waitsOpen {b : Buffer} (h : b.Reachable) : b.WaitsOpen := by
  refine h.induction ?_ ?_
  · intro c r hr
    cases hr
  · intro b a hb
    exact waitsOpen_act hb a

/-! ## Actions that wake everybody -/

/-- The actions that wake everybody: closing, every first half of a change of the
    deadline, and a deadline of the current generation that is reached by its timer
    or because its timer was refused. -/
inductive Broadcasts (b : Buffer) : Action → Prop where
  | close : Broadcasts b .close
  | startDeadline (now : Nat) (deadline : Option Instant) :
      Broadcasts b (.startDeadline now deadline)
  | refused : Broadcasts b (.startRefused b.state.generation)
  | fire : Broadcasts b (.fire b.state.generation)

/-- No other action does. -/
theorem broadcasts_iff (b : Buffer) (a : Action) :
    b.Broadcasts a ↔ (b.change a).2 = .everybody := by
  constructor
  · intro h
    cases h with
    | close => rfl
    | startDeadline now deadline => rfl
    | refused => simp only [change, if_true]
    | fire => simp only [change, if_true]
  · intro h
    cases a with
    | close => exact .close
    | startDeadline now deadline => exact .startDeadline now deadline
    | startRefused generation =>
      have hcur : b.state.generation = generation := by
        by_contra hne
        rw [change, if_neg hne] at h
        cases h
      rw [← hcur]
      exact .refused
    | fire generation =>
      have hcur : b.state.generation = generation := by
        by_contra hne
        rw [change, if_neg hne] at h
        cases h
      rw [← hcur]
      exact .fire
    | install generation timer =>
      rw [change] at h
      split at h <;> cases h
    | write chunk => cases h
    | read id call => cases h
    | abandon => cases h

/-! ## Actions that end every blocked read -/

/-- The actions that set a flag, each with the failure of a read that finds no byte
    afterwards. -/
inductive Ends (b : Buffer) : Action → ReadError → Prop where
  | close : Ends b .close .endOfStream
  | passed {now : Nat} {deadline : Instant} (h : deadline.hasCome now = true) :
      Ends b (.startDeadline now (some deadline)) .deadlineExceeded
  | refused : Ends b (.startRefused b.state.generation) .deadlineExceeded
  | fire : Ends b (.fire b.state.generation) .deadlineExceeded

theorem Ends.broadcasts {b : Buffer} {a : Action} {cause : ReadError} (h : b.Ends a cause) :
    b.Broadcasts a := by
  cases h with
  | close => exact .close
  | passed h => exact .startDeadline _ _
  | refused => exact .refused
  | fire => exact .fire

/-- Where neither flag was set, such an action sets its own and not the other one. -/
theorem change_of_ends {b : Buffer} {a : Action} {cause : ReadError} (h : b.Ends a cause)
    (hclosed : b.state.closed = false) (hreached : b.state.deadlineReached = false) :
    (b.change a).1.Over cause := by
  cases h with
  | close => exact ⟨rfl, hreached⟩
  | passed h => exact ⟨hclosed, h⟩
  | refused =>
    rw [change, if_pos rfl]
    exact ⟨hclosed, rfl⟩
  | fire =>
    rw [change, if_pos rfl]
    exact ⟨hclosed, rfl⟩

theorem Ends.chunk_eq_nil {b : Buffer} {a : Action} {cause : ReadError} (h : b.Ends a cause) :
    a.chunk = [] := by
  cases h <;> rfl

/-- No other action sets a flag that was not set. -/
theorem ends_of_flag_set {b : Buffer} {a : Action}
    (h : (b.state.closed = false ∧ (b.act a).1.state.closed = true)
      ∨ (b.state.deadlineReached = false ∧ (b.act a).1.state.deadlineReached = true)) :
    ∃ cause, b.Ends a cause := by
  obtain ⟨hclosed, hreached, -, -⟩ := fields_act b a
  rw [hclosed, hreached] at h
  -- an action that wakes nobody, or one reader, leaves both flags as they were
  have hall : b.Broadcasts a := by
    rw [broadcasts_iff]
    apply (flags_change b a).resolve_right
    rintro ⟨hc, hr⟩
    rw [hc, hr] at h
    rcases h with ⟨h₁, h₂⟩ | ⟨h₁, h₂⟩
    · rw [h₁] at h₂
      cases h₂
    · rw [h₁] at h₂
      cases h₂
  cases hall with
  | close => exact ⟨_, .close⟩
  | startDeadline now deadline =>
    rcases h with ⟨h₁, h₂⟩ | ⟨-, h₂⟩
    · -- a change of the deadline does not close
      have hsame : b.state.closed = true := h₂
      rw [h₁] at hsame
      cases hsame
    · obtain ⟨d, rfl, hcome⟩ := (Option.any_eq_true _ _).mp h₂
      exact ⟨_, .passed hcome⟩
  | refused => exact ⟨_, .refused⟩
  | fire => exact ⟨_, .fire⟩

/-- Readers woken after a flag was set all end, each as it finds what the one before
    it left. -/
theorem serveAll_of_over {b : Buffer} {cause : ReadError} (h : b.state.Over cause)
    (readers : List Reader) (hwant : ∀ r ∈ readers, 0 < r.want) :
    (b.serveAll readers).1.waiting = b.waiting
      ∧ (b.serveAll readers).2.ended
          = (Reader.concludeAll cause readers b.state.queue.unread).1
      ∧ (b.serveAll readers).1.state.queue.unread
          = (Reader.concludeAll cause readers b.state.queue.unread).2 := by
  induction readers generalizing b with
  | nil => exact ⟨rfl, rfl, rfl⟩
  | cons r rest ih =>
    obtain ⟨hstanding, hunread⟩ :=
      Reader.proceed_of_over false (Or.inl rfl) h (hwant r List.mem_cons_self)
    have hserve : b.serve r = ({ b with state := (r.proceed b.state false).state },
        { events := (r.proceed b.state false).events
          ended := [(r.id, (r.conclude cause b.state.queue.unread).1)]
          copied := (r.proceed b.state false).copied }) :=
      accept_of_ended b r.id hstanding
    have hover : (b.serve r).1.state.Over cause :=
      h.of_control_eq (serve_served b r).control_eq
    have hleft : (b.serve r).1.state.queue.unread
        = (r.conclude cause b.state.queue.unread).2 := by
      rw [hserve]
      exact hunread
    obtain ⟨hwaiting, hended, hrest⟩ :=
      ih hover fun x hx => hwant x (List.mem_cons_of_mem r hx)
    rw [hleft] at hended hrest
    refine ⟨?_, ?_, hrest⟩
    · have hline : (b.serve r).1.waiting = b.waiting := by rw [hserve]
      exact hwaiting.trans hline
    · rw [serveAll, Effects.ended_append, hended, hserve]
      rfl

/-- In every reachable state the buffer of a blocked read is open, its deadline is
    not reached, and the read's destination has room. So an action that sets a flag,
    and only the listed ones do, ends every blocked read at once, in the order of the
    line: one that finds bytes takes them, and one that finds none fails with the
    cause. -/
theorem blocked_reads_end {b : Buffer} (h : b.Reachable) :
    (∀ r ∈ b.waiting,
        b.state.closed = false ∧ b.state.deadlineReached = false ∧ 0 < r.want)
      ∧ (∀ a cause, b.Ends a cause →
          (b.act a).1.waiting = []
            ∧ (b.act a).2.ended.map Prod.fst = b.waitingIds
            ∧ (b.act a).2.ended
                = (Reader.concludeAll cause b.waiting b.state.queue.unread).1
            ∧ (b.act a).1.state.queue.unread
                = (Reader.concludeAll cause b.waiting b.state.queue.unread).2)
      ∧ ∀ a, (b.state.closed = false ∧ (b.act a).1.state.closed = true)
            ∨ (b.state.deadlineReached = false ∧ (b.act a).1.state.deadlineReached = true)
          → ∃ cause, b.Ends a cause := by
  have hopen : b.WaitsOpen := h.waitsOpen
  refine ⟨hopen, ?_, fun a hset => ends_of_flag_set hset⟩
  intro a cause hends
  suffices hend : (b.act a).1.waiting = []
      ∧ (b.act a).2.ended = (Reader.concludeAll cause b.waiting b.state.queue.unread).1
      ∧ (b.act a).1.state.queue.unread
          = (Reader.concludeAll cause b.waiting b.state.queue.unread).2 by
    refine ⟨hend.1, ?_, hend.2⟩
    rw [hend.2.1]
    exact Reader.ids_concludeAll cause b.waiting b.state.queue.unread
  have hall : (b.change a).2 = .everybody := (broadcasts_iff b a).mp hends.broadcasts
  have hqueue : (b.changed a).state.queue.unread = b.state.queue.unread := by
    rw [changed, unread_change, hends.chunk_eq_nil, List.append_nil]
  obtain ⟨hbuffer, hended, -⟩ := act_eq b a
  rw [hall] at hbuffer hended
  rw [hbuffer, hended, ← hqueue]
  cases hw : b.waiting with
  | nil =>
    -- nobody waits, and it does not matter which flags were set before
    have hwake : (b.changed a).wake .everybody = (b.changed a, {}) := wakeAll_of_waiting_nil hw
    rw [hwake]
    exact ⟨hw, rfl, rfl⟩
  | cons first rest =>
    -- the invariant at any waiting reader says that neither flag was set
    obtain ⟨hclosed, hreached, -⟩ := hopen first (by rw [hw]; exact List.mem_cons_self)
    have hserve := serveAll_of_over (b := { b.changed a with waiting := [] })
      (change_of_ends hends hclosed hreached) b.waiting fun r hr => (hopen r hr).2.2
    rw [← hw]
    exact hserve

/-- Three reads wait, one piece wakes the first of them, and closing ends the other
    two in their order. -/
theorem blocked_reads_end_close :
    let b := ((ofConfig {}).runAll
      [.read 0 (.read 2), .read 1 (.stream 4), .read 2 (.fill 3), .write [1, 2, 3]]).1
    b.Reachable ∧ b.waitingIds = [1, 2] ∧ b.close.1.waiting = []
      ∧ b.close.2.ended = [(1, .bytes [3]), (2, .streamFailed .unfilled)] := by
  intro b
  have hreach : b.Reachable := ⟨_, _, rfl⟩
  obtain ⟨-, hends, -⟩ := blocked_reads_end hreach
  obtain ⟨hwaiting, -, hended, -⟩ := hends .close .endOfStream .close
  refine ⟨hreach, by decide +kernel, hwaiting, Eq.trans hended ?_⟩
  decide +kernel

/-! ## No lost wake-up -/

/-- After everybody was woken, a reader that still waits waits at an empty queue, and
    those that wait stand as they stood. -/
theorem waiting_act_of_broadcasts {b : Buffer} {a : Action} (h : b.Broadcasts a) :
    ((b.act a).1.waiting = [] ∨ (b.act a).1.state.queue.unread = [])
      ∧ ((b.act a).1.waiting.map Reader.request).Sublist (b.waiting.map Reader.request) := by
  obtain ⟨hbuffer, -, -⟩ := act_eq b a
  rw [(broadcasts_iff b a).mp h] at hbuffer
  obtain ⟨hsub, hstuck⟩ := waiting_wakeAll (b.changed a)
  rw [hbuffer]
  refine ⟨?_, hsub⟩
  cases hw : ((b.changed a).wake .everybody).1.waiting with
  | nil => exact Or.inl rfl
  | cons r rest =>
    right
    have hmem : r ∈ (b.changed a).wakeAll.1.waiting := by
      show r ∈ ((b.changed a).wake .everybody).1.waiting
      rw [hw]
      exact List.mem_cons_self
    exact (hstuck r hmem).unread_eq_nil

/-- While at most one call is blocked, an action leaves no byte unread beside it. A
    write wakes that one call, and any other action writes nothing. -/
theorem unread_eq_nil_act {b : Buffer} (hone : b.waiting.length ≤ 1)
    (h : b.waiting ≠ [] → b.state.queue.unread = []) (a : Action) :
    (b.act a).1.waiting ≠ [] → (b.act a).1.state.queue.unread = [] := by
  intro hne
  obtain ⟨r, hr⟩ := List.exists_mem_of_ne_nil _ hne
  rcases stuck_of_waiting_act hr with hstuck | ⟨hmem, -, htail⟩
  · exact hstuck.unread_eq_nil
  · have hnot : (b.change a).2 ≠ .longest := by
      -- had it woken the reader in front, one more would stand behind it
      intro hlongest
      have hlen := List.length_pos_of_mem (htail hlongest)
      rw [List.length_tail] at hlen
      omega
    have hunread : b.state.queue.unread = [] := h (List.ne_nil_of_mem hmem)
    have hchange : (b.changed a).state.queue.unread = [] := by
      show (b.change a).1.queue.unread = []
      rw [unread_change, hunread, chunk_eq_nil hnot]
      rfl
    rw [(act_eq b a).1]
    exact (wake_served (b.changed a) _).unread_eq_nil hchange

/-- The same over a run from a buffer at which it holds, as long as never two calls
    are blocked at a time. -/
theorem unread_eq_nil_runAll {b : Buffer} (h : b.waiting ≠ [] → b.state.queue.unread = [])
    (actions : List Action)
    (hone : ∀ before, before <+: actions → (b.runAll before).1.waiting.length ≤ 1) :
    (b.runAll actions).1.waiting ≠ [] → (b.runAll actions).1.state.queue.unread = [] := by
  induction actions generalizing b with
  | nil => exact h
  | cons a rest ih =>
    refine ih (unread_eq_nil_act (hone [] List.nil_prefix) h a) ?_
    intro before hbefore
    exact hone (a :: before) (List.cons_prefix_cons.mpr ⟨rfl, hbefore⟩)

/-- No wake-up is lost. In a run in which never two calls are blocked at a time, no
    byte is unread beside a blocked call. With any number of blocked calls, that is
    so after every action that wakes everybody, and the calls still blocked keep
    their order. -/
theorem no_lost_wakeup :
    (∀ (c : Config) (actions : List Action),
        (∀ before, before <+: actions →
          ((ofConfig c).runAll before).1.waiting.length ≤ 1) →
        ((ofConfig c).runAll actions).1.waiting ≠ [] →
        ((ofConfig c).runAll actions).1.state.queue.unread = [])
      ∧ ∀ (b : Buffer) (a : Action), b.Broadcasts a →
          ((b.act a).1.waiting = [] ∨ (b.act a).1.state.queue.unread = [])
            ∧ ((b.act a).1.waiting.map Reader.request).Sublist
                (b.waiting.map Reader.request) := by
  refine ⟨?_, fun b a h => waiting_act_of_broadcasts h⟩
  intro c actions hone
  exact unread_eq_nil_runAll (fun hne => absurd rfl hne) actions hone

/-- A read that is half filled waits alone at an empty queue. Of two calls that wait
    beside unread bytes, since a write woke another reader only, a cleared deadline
    lets both look, and they wait on in their order at an empty queue. -/
theorem no_lost_wakeup_half_filled :
    (∃ b : Buffer,
        b = ((ofConfig {}).runAll
          [.read 0 (.fill 4), .write [1, 2], .startDeadline 0 none]).1
          ∧ b.waitingIds = [0] ∧ b.state.queue.unread = [])
      ∧ ∃ b : Buffer,
        b = ((ofConfig {}).runAll
          [.read 0 (.read 2), .read 1 (.fill 4), .read 2 (.read 1), .write [1, 2, 3, 4, 5]]).1
          ∧ b.waitingIds = [1, 2] ∧ b.state.queue.unread = [3, 4, 5]
          ∧ (b.startDeadline 0 none).1.waitingIds = [1, 2]
          ∧ (b.startDeadline 0 none).1.state.queue.unread = [] := by
  refine ⟨⟨_, rfl, by decide +kernel, ?_⟩, _, rfl, by decide +kernel, by decide +kernel,
    by decide +kernel, ?_⟩
  · refine no_lost_wakeup.1 {} _ ?_ (by decide +kernel)
    intro before hbefore
    have hmem := (List.mem_inits _ _).mpr hbefore
    clear hbefore
    revert before
    decide +kernel
  · exact (no_lost_wakeup.2 _ _ (.startDeadline 0 none)).1.resolve_left (by decide +kernel)

end Buffer

end StreamBuffer
