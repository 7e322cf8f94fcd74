/-
  StreamBuffer.Proofs.Buffer.Closing

  A closed buffer stays closed, and drains, and is then at its end for good.

  On a closed buffer every look ends its call (`exists_standing_of_closed`), so that
  nobody waits there. Without further writes the unread bytes only get fewer, and a
  read that meets the end of the stream found none of them left, nor does any later
  one (`unread_eq_nil_of_endOfStream`).
-/
import StreamBuffer.Proofs.Buffer.Conservation
import StreamBuffer.Proofs.Buffer.Outcome

namespace StreamBuffer

/-! ## A look at a closed buffer -/

namespace Reader

/-- Who runs on a closed buffer is done. -/
theorem exists_standing_of_closed (r : Reader) {s : BufferState} (h : s.closed = true)
    (entering : Bool) : ∃ o, (r.proceed s entering).standing = .inl o := by
  cases hstanding : (r.proceed s entering).standing with
  | inl o => exact ⟨o, rfl⟩
  | inr r' =>
    obtain ⟨-, -, hstuck⟩ := stuck_of_proceed hstanding
    have hclosed := (BufferState.fields_of_control_eq (r.proceed_control s entering)).1
    rw [hstuck.closed_eq_false, h] at hclosed
    cases hclosed

theorem exists_start_standing_of_closed (r : Reader) {s : BufferState} (h : s.closed = true) :
    ∃ o, (r.start s).standing = .inl o := by
  rcases r.start_eq s with he | he
  · rw [he]
    exact r.exists_standing_of_closed h true
  · rw [he]
    exact ⟨_, rfl⟩

/-! ## Meeting the end of the stream -/

/-- A collecting call does not fail as a plain read does. -/
theorem finish_ne_readFailed (r : Reader) (e : Option StreamError) (error : ReadError) :
    r.finish e ≠ .readFailed error := by
  unfold finish Outcome.ofText
  split
  · split <;> simp
  · simp

/-- Only a plain read fails with its attempt's own error. -/
theorem eq_failed_of_settle {r : Reader} {a : Attempt} {error : ReadError}
    (h : r.settle a = .ended (.readFailed error)) : a = .failed error := by
  unfold settle at h
  split at h
  all_goals try simp_all [finish_ne_readFailed]
  -- a destination to be filled ends with bytes or goes on
  split at h <;> simp at h

end Reader

namespace BufferState

/-- An attempt meets the end of the stream only if it finds no byte, and leaves none. -/
theorem unread_eq_nil_of_attempt {s : BufferState} {n : Nat}
    (h : (s.attempt n).1 = .failed .endOfStream) : (s.attempt n).2.queue.unread = [] := by
  rcases s.concludes_or_waits n with ⟨o, ho⟩ | hwaits
  · have hsettle := settle_attempt_of_concludes (r := { id := 0, call := .read n }) rfl ho
    rw [h] at hsettle
    obtain rfl : Outcome.readFailed .endOfStream = o := Progress.ended.inj hsettle
    rw [unread_attempt, ho.unread_eq_nil, List.drop_nil]
  · rw [hwaits.attempt_eq_nothing] at h
    cases h

end BufferState

namespace Reader

theorem unread_eq_nil_of_look {r : Reader} {s : BufferState} {entering : Bool}
    (h : (r.look s entering).1 = .failed .endOfStream) :
    (r.look s entering).2.queue.unread = [] := by
  have hlook : r.look s entering = s.attempt r.want := by
    cases hentering : entering with
    | false => rfl
    | true =>
      rw [hentering] at h
      refine r.look_eq_attempt (Or.inr ?_)
      -- a read entered after its deadline fails with that
      cases hreached : s.deadlineReached with
      | false => rfl
      | true =>
        rw [look, if_pos rfl, BufferState.enter, if_pos hreached] at h
        cases h
  rw [hlook] at h ⊢
  exact BufferState.unread_eq_nil_of_attempt h

/-- A call that ends at the end of the stream leaves no byte: by induction on its run,
    of which the last look was the one that met it. -/
theorem unread_eq_nil_of_proceed {r : Reader} {s : BufferState} {entering : Bool}
    (h : (r.proceed s entering).standing = .inl (.readFailed .endOfStream)) :
    (r.proceed s entering).state.queue.unread = [] := by
  fun_induction proceed r s entering with
  | case1 r s entering a outcome hs =>
    obtain rfl : outcome = .readFailed .endOfStream := Sum.inl.inj h
    exact unread_eq_nil_of_look (eq_failed_of_settle hs)
  | case2 r s entering a hs => cases h
  | case3 r s entering a r' hs rest ih => exact ih h

theorem unread_eq_nil_of_start {r : Reader} {s : BufferState}
    (h : (r.start s).standing = .inl (.readFailed .endOfStream)) :
    (r.start s).state.queue.unread = [] := by
  rcases r.start_eq s with he | he
  · rw [he] at h ⊢
    exact unread_eq_nil_of_proceed h
  · rw [he] at h
    cases h

end Reader

namespace Buffer

/-- Bytes that a call met the end of the stream without: none is left when it ends. -/
theorem unread_eq_nil_of_accept {b : Buffer} {id x : Nat} {a : Advance}
    (hend : a.standing = .inl (.readFailed .endOfStream) → a.state.queue.unread = [])
    (h : (x, .readFailed .endOfStream) ∈ (b.accept id a).2.ended) :
    (b.accept id a).1.state.queue.unread = [] := by
  rw [state_accept]
  cases hstanding : a.standing with
  | inl o =>
    rw [accept_of_ended b id hstanding] at h
    obtain ⟨-, rfl⟩ := Prod.mk.inj (List.mem_singleton.mp h)
    exact hend hstanding
  | inr r =>
    rw [accept_of_waits b id hstanding] at h
    cases h

theorem unread_eq_nil_of_serve {b : Buffer} {x : Nat} {r : Reader}
    (h : (x, .readFailed .endOfStream) ∈ (b.serve r).2.ended) :
    (b.serve r).1.state.queue.unread = [] :=
  unread_eq_nil_of_accept Reader.unread_eq_nil_of_proceed h

/-- Readers that run after one that met the end of the stream find no byte either. -/
theorem unread_eq_nil_of_serveAll {b : Buffer} {x : Nat} {readers : List Reader}
    (h : (x, .readFailed .endOfStream) ∈ (b.serveAll readers).2.ended) :
    (b.serveAll readers).1.state.queue.unread = [] := by
  induction readers generalizing b with
  | nil => cases h
  | cons r rest ih =>
    have hmem : (x, .readFailed .endOfStream) ∈ (b.serve r).2.ended
        ++ ((b.serve r).1.serveAll rest).2.ended := h
    rcases List.mem_append.mp hmem with hmem | hmem
    · exact (serveAll_served (b.serve r).1 rest).unread_eq_nil (unread_eq_nil_of_serve hmem)
    · exact ih hmem

theorem unread_eq_nil_of_wake {b : Buffer} {x : Nat} {w : Waking}
    (h : (x, .readFailed .endOfStream) ∈ (b.wake w).2.ended) :
    (b.wake w).1.state.queue.unread = [] := by
  cases w with
  | nobody => cases h
  | longest =>
    cases hw : b.waiting with
    | nil =>
      simp only [wake, wakeOne, hw] at h
      cases h
    | cons r rest =>
      simp only [wake, wakeOne, hw] at h ⊢
      exact unread_eq_nil_of_serve h
  | everybody => exact unread_eq_nil_of_serveAll h
  | newcomer r => exact unread_eq_nil_of_accept Reader.unread_eq_nil_of_start h

theorem unread_eq_nil_of_act {b : Buffer} {x : Nat} {a : Action}
    (h : (x, .readFailed .endOfStream) ∈ (b.act a).2.ended) :
    (b.act a).1.state.queue.unread = [] := by
  obtain ⟨hbuffer, hended, -⟩ := act_eq b a
  rw [hended] at h
  rw [hbuffer]
  exact unread_eq_nil_of_wake h

/-! ## Runs without writes -/

theorem written_append (first second : List Action) :
    written (first ++ second) = written first ++ written second := List.flatMap_append

theorem written_eq_nil {actions : List Action} (h : ∀ chunk, .write chunk ∉ actions) :
    written actions = [] := by
  rw [written, List.flatMap_eq_nil_iff]
  intro a ha
  cases a with
  | write chunk => exact absurd ha (h chunk)
  | _ => rfl

/-- A queue with no byte has none after a run that writes none. -/
theorem unread_eq_nil_of_written_nil {b : Buffer} {actions : List Action}
    (hwrite : written actions = []) (hnil : b.state.queue.unread = []) :
    (b.runAll actions).1.state.queue.unread = [] := by
  have hsum := copied_append_unread_runAll b actions
  rw [hwrite, hnil] at hsum
  exact (List.append_eq_nil_iff.mp hsum).2

/-- All that was written is copied out or unread. -/
theorem copied_eq_written_of_unread_nil {c : Config} {actions : List Action}
    (h : ((ofConfig c).runAll actions).1.state.queue.unread = []) :
    ((ofConfig c).runAll actions).2.copied = written actions := by
  have hsum := copied_append_unread_runAll (ofConfig c) actions
  rw [h, List.append_nil] at hsum
  exact hsum

/-- In a run without writes, once a call has met the end of the stream no byte is
    left. -/
theorem unread_eq_nil_of_endOfStream {b : Buffer} {x : Nat} {actions : List Action}
    (hwrite : written actions = [])
    (h : (x, .readFailed .endOfStream) ∈ (b.runAll actions).2.ended) :
    (b.runAll actions).1.state.queue.unread = [] := by
  induction actions generalizing b with
  | nil => cases h
  | cons a rest ih =>
    rw [written_cons] at hwrite
    obtain ⟨-, hrest⟩ := List.append_eq_nil_iff.mp hwrite
    rw [runAll_cons] at h ⊢
    rcases List.mem_append.mp h with h | h
    · -- met in the first action: nothing is written later that could be left
      exact unread_eq_nil_of_written_nil hrest (unread_eq_nil_of_act h)
    · exact ih hrest h

/-! ## Closed for good -/

/-- No action opens a buffer. -/
theorem closed_change {b : Buffer} (h : b.state.closed = true) (a : Action) :
    (b.change a).1.closed = true := by
  cases a with
  | close => rfl
  | install generation timer =>
    simp only [change]
    split <;> exact h
  | startRefused generation =>
    simp only [change]
    split <;> exact h
  | fire generation =>
    simp only [change]
    split <;> exact h
  | _ => exact h

theorem closed_act {b : Buffer} (h : b.state.closed = true) (a : Action) :
    (b.act a).1.state.closed = true := by
  rw [(fields_act b a).1]
  exact closed_change h a

/-- Nobody waits after an action that leaves the buffer closed, if it woke everybody or
    nobody waited before it. -/
theorem waiting_act_of_closed {b : Buffer} {a : Action} (h : (b.act a).1.state.closed = true)
    (hline : (b.change a).2 = .everybody ∨ b.waiting = []) : (b.act a).1.waiting = [] := by
  rw [List.eq_nil_iff_forall_not_mem]
  intro r hr
  rcases stuck_of_waiting_act hr with hstuck | ⟨hmem, hnot, -⟩
  · -- a reader that ran is stuck at open buffers only
    rw [hstuck.closed_eq_false] at h
    cases h
  · rcases hline with hall | hnil
    · exact hnot hall
    · rw [hnil] at hmem
      cases hmem

/-- From a close on the buffer is closed and nobody waits: by induction on what
    follows. -/
theorem closed_runAll {b : Buffer} (hclosed : b.state.closed = true) (hline : b.waiting = [])
    (later : List Action) :
    (b.runAll later).1.state.closed = true ∧ (b.runAll later).1.waiting = [] := by
  induction later generalizing b with
  | nil => exact ⟨hclosed, hline⟩
  | cons a rest ih =>
    have hclosed' := closed_act hclosed a
    exact ih hclosed' (waiting_act_of_closed hclosed' (Or.inr hline))

theorem closed_close (b : Buffer) :
    (b.act .close).1.state.closed = true ∧ (b.act .close).1.waiting = [] := by
  have hclosed : (b.act .close).1.state.closed = true := (fields_act b .close).1
  exact ⟨hclosed, waiting_act_of_closed hclosed (Or.inl rfl)⟩

/-- Every call that begins on a closed buffer ends in its own step. -/
theorem exists_ended_read_of_closed {b : Buffer} (h : b.state.closed = true) (id : Nat)
    (call : Call) : ∃ o, (b.act (.read id call)).2.ended = [(id, o)] := by
  obtain ⟨o, ho⟩ := Reader.exists_start_standing_of_closed { id, call } h
  refine ⟨o, ?_⟩
  show (b.accept id _).2.ended = _
  rw [accept_of_ended b id ho]

theorem waiting_accept_of_ended {b : Buffer} {id : Nat} {a : Advance} {o : Outcome}
    (h : a.standing = .inl o) : (b.accept id a).1.waiting = b.waiting := by
  rw [accept_of_ended b id h]

/-- A call that looks at a closed buffer leaves the line, however late it looks. -/
theorem closed_move {b : Buffer} (h : b.state.closed = true) (m : Move) :
    (b.move m).1.state.closed = true ∧ (b.move m).1.waiting.Sublist b.waiting := by
  cases m with
  | change a => exact ⟨closed_change h a, List.Sublist.refl _⟩
  | enter id call =>
    obtain ⟨o, ho⟩ := Reader.exists_start_standing_of_closed { id, call } h
    have hcontrol := (read_served b { id, call }).control_eq
    have hwaiting : (b.read { id, call }).1.waiting = b.waiting := waiting_accept_of_ended ho
    refine ⟨(BufferState.fields_of_control_eq hcontrol).1.trans h, ?_⟩
    show (b.read { id, call }).1.waiting.Sublist b.waiting
    simp only [hwaiting, List.Sublist.refl]
  | resume place =>
    cases hplace : b.waiting[place]? with
    | none =>
      rw [move_resume_of_none hplace]
      exact ⟨h, List.Sublist.refl _⟩
    | some r =>
      let left : Buffer := { b with waiting := b.waiting.eraseIdx place }
      obtain ⟨o, ho⟩ := r.exists_standing_of_closed h false
      have hcontrol := (serve_served left r).control_eq
      have hwaiting : (left.serve r).1.waiting = left.waiting := waiting_accept_of_ended ho
      rw [move_resume_of_getElem? hplace]
      refine ⟨(BufferState.fields_of_control_eq hcontrol).1.trans h, ?_⟩
      rw [hwaiting]
      exact List.eraseIdx_sublist b.waiting place

theorem closed_runMoves {b : Buffer} (h : b.state.closed = true) (moves : List Move) :
    (b.runMoves moves).1.state.closed = true
      ∧ (b.runMoves moves).1.waiting.Sublist b.waiting := by
  induction moves generalizing b with
  | nil => exact ⟨h, List.Sublist.refl _⟩
  | cons m rest ih =>
    obtain ⟨hclosed, hsub⟩ := closed_move h m
    obtain ⟨hclosed', hsub'⟩ := ih hclosed
    exact ⟨hclosed', hsub'.trans hsub⟩

/-! ## Plain reads of a closed buffer -/

/-- A plain read whose first look ends it takes what that look takes. -/
theorem act_read_of_concludes {b : Buffer} {id n : Nat} {o : Outcome}
    (hreached : b.state.deadlineReached = false) (h : b.state.Concludes n o) :
    (b.act (.read id (.read n))).2.ended = [(id, o)]
      ∧ (b.act (.read id (.read n))).1.state.queue.unread = b.state.queue.unread.drop n := by
  let r : Reader := { id, call := .read n }
  have hproceed : (r.proceed b.state true).standing = .inl o
      ∧ (r.proceed b.state true).state = (b.state.attempt n).2 :=
    Reader.proceed_of_concludes rfl (Or.inr hreached) h
  show (b.accept r.id (r.proceed b.state true)).2.ended = [(id, o)]
    ∧ (b.accept r.id (r.proceed b.state true)).1.state.queue.unread = _
  rw [accept_of_ended b r.id hproceed.1, hproceed.2]
  exact ⟨rfl, BufferState.unread_attempt b.state n⟩

/-- On a closed buffer with no byte a plain read with room for one meets the end of the
    stream. -/
theorem act_read_of_closed_of_unread_nil {b : Buffer} {id n : Nat}
    (hreached : b.state.deadlineReached = false) (hclosed : b.state.closed = true)
    (hnil : b.state.queue.unread = []) (hn : 0 < n) :
    (b.act (.read id (.read n))).2.ended = [(id, .readFailed .endOfStream)]
      ∧ (b.act (.read id (.read n))).1.state.queue.unread = [] := by
  have hread : (b.act (.read id (.read n))).2.ended = [(id, .readFailed .endOfStream)]
      ∧ (b.act (.read id (.read n))).1.state.queue.unread = b.state.queue.unread.drop n :=
    act_read_of_concludes hreached (.endOfStream hn hnil hclosed)
  rw [hnil, List.drop_nil] at hread
  exact hread

/-- Whether the deadline is reached or not, it fails. -/
theorem exists_failed_read_of_closed {b : Buffer} (h : b.state.closed = true)
    (hnil : b.state.queue.unread = []) (id : Nat) {n : Nat} (hn : 0 < n) :
    ∃ error, (b.act (.read id (.read n))).2.ended = [(id, .readFailed error)] := by
  cases hreached : b.state.deadlineReached with
  | true =>
    have hmove : b.act (.read id (.read n)) = _ := move_enter_of_reached hreached id n
    exact ⟨.deadlineExceeded, congrArg (fun out => out.2.ended) hmove⟩
  | false => exact ⟨.endOfStream, (act_read_of_closed_of_unread_nil hreached h hnil hn).1⟩

/-- After a close the buffer is closed for good and no call waits, neither one that
    begins nor one that was woken and looks only later. If no write follows the close,
    the bytes then unread are all that is still copied out, in order. Of these a plain
    read takes what it has room for, and meets the end of the stream once none is left;
    one entered while the deadline is reached fails with that and takes none. So when a
    call meets the end of the stream first, every byte ever written was copied out, and
    every later read with room for a byte fails. -/
theorem closed_for_good (c : Config) (before : List Action) :
    let run (later : List Action) := ((ofConfig c).runAll before).1.runAll (.close :: later)
    (∀ later,
        (run later).1.state.closed = true ∧ (run later).1.waiting = []
          ∧ ∀ id call, ∃ o, ((run later).1.act (.read id call)).2.ended = [(id, o)])
      ∧ (∀ (b : Buffer) (moves : List Move),
          ((b.changed .close).runMoves moves).1.state.closed = true
            ∧ ((b.changed .close).runMoves moves).1.waiting.Sublist b.waiting)
      ∧ ∀ later, (∀ chunk, .write chunk ∉ later) →
          (run later).2.copied ++ (run later).1.state.queue.unread
              = ((ofConfig c).runAll before).1.state.queue.unread
            ∧ (∀ id n, 0 < n →
                let b := (run later).1
                let out := b.act (.read id (.read n))
                (b.state.deadlineReached = true →
                    out = (b, { ended := [(id, .readFailed .deadlineExceeded)] }))
                  ∧ (b.state.deadlineReached = false → b.state.queue.unread ≠ [] →
                      out.2.ended = [(id, .bytes (b.state.queue.unread.take n))]
                        ∧ out.1.state.queue.unread = b.state.queue.unread.drop n)
                  ∧ (b.state.deadlineReached = false → b.state.queue.unread = [] →
                      out.2.ended = [(id, .readFailed .endOfStream)]
                        ∧ out.1.state.queue.unread = []))
            ∧ ∀ x, (x, .readFailed .endOfStream) ∈ (run later).2.ended →
                ((ofConfig c).runAll (before ++ .close :: later)).2.copied = written before
                  ∧ ∀ more, (∀ chunk, .write chunk ∉ more) → ∀ id n, 0 < n →
                      ∃ error, ((run (later ++ more)).1.act (.read id (.read n))).2.ended
                        = [(id, .readFailed error)] := by
  intro run
  have hclosed : ∀ later,
      (run later).1.state.closed = true ∧ (run later).1.waiting = [] := by
    intro later
    have hclose := closed_close ((ofConfig c).runAll before).1
    exact closed_runAll hclose.1 hclose.2 later
  refine ⟨fun later => ?_, fun b moves => closed_runMoves rfl moves, fun later hlater => ?_⟩
  · obtain ⟨hopen, hline⟩ := hclosed later
    exact ⟨hopen, hline, exists_ended_read_of_closed hopen⟩
  have hwritten : written (.close :: later) = [] := written_eq_nil (by simpa using hlater)
  refine ⟨?_, ?_, ?_⟩
  · have hsum := copied_append_unread_runAll ((ofConfig c).runAll before).1 (.close :: later)
    rw [hwritten, List.append_nil] at hsum
    exact hsum
  · intro id n hn b out
    refine ⟨fun hreached => move_enter_of_reached hreached id n, fun hreached hne => ?_,
      fun hreached hnil => ?_⟩
    · exact act_read_of_concludes hreached (.bytes (Or.inr hne))
    · exact act_read_of_closed_of_unread_nil hreached (hclosed later).1 hnil hn
  · intro x hx
    have hnil : (run later).1.state.queue.unread = [] :=
      unread_eq_nil_of_endOfStream hwritten hx
    refine ⟨?_, ?_⟩
    · have hleft : ((ofConfig c).runAll (before ++ .close :: later)).1.state.queue.unread = [] := by
        rw [runAll_append_fst]
        exact hnil
      rw [copied_eq_written_of_unread_nil hleft, written_append, hwritten, List.append_nil]
    · intro more hmore id n hn
      refine exists_failed_read_of_closed (hclosed (later ++ more)).1 ?_ id hn
      have hcut : (run (later ++ more)).1 = ((run later).1.runAll more).1 :=
        runAll_append_fst ((ofConfig c).runAll before).1 (.close :: later) more
      rw [hcut]
      exact unread_eq_nil_of_written_nil (written_eq_nil hmore) hnil

/-- A read waits, bytes come for it and beyond, and the buffer is closed. The rest of
    the bytes is read, with a deadline reached and cleared in between; then the stream
    is at its end, and stays there. -/
theorem closed_for_good_drained :
    let before : List Action := [.read 0 (.read 1), .write [1, 2, 3]]
    let later : List Action :=
      [.startDeadline 5 (some (.tick 4)), .read 1 (.read 2), .close, .startDeadline 6 none,
        .read 2 (.read 2), .read 3 (.read 2)]
    let run := (((ofConfig {}).runAll before).1.runAll (.close :: later))
    (∀ chunk, .write chunk ∉ later)
      ∧ run.2.ended = [(1, .readFailed .deadlineExceeded), (2, .bytes [2, 3]),
          (3, .readFailed .endOfStream)]
      ∧ ((ofConfig {}).runAll (before ++ .close :: later)).2.copied = [1, 2, 3]
      ∧ ∃ error, (run.1.act (.read 4 (.read 1))).2.ended = [(4, .readFailed error)] := by
  intro before later run
  have hlater : ∀ chunk, .write chunk ∉ later := by simp [later]
  have hended : run.2.ended = [(1, .readFailed .deadlineExceeded), (2, .bytes [2, 3]),
      (3, .readFailed .endOfStream)] := by decide +kernel
  obtain ⟨-, -, hdrains⟩ := closed_for_good {} before
  obtain ⟨-, -, hdone⟩ := hdrains later hlater
  have hmem : (3, .readFailed .endOfStream) ∈ run.2.ended := by
    rw [hended]
    simp
  obtain ⟨hcopied, hfails⟩ := hdone 3 hmem
  refine ⟨hlater, hended, hcopied, ?_⟩
  have hfail := hfails [] (by simp) 4 1 (by decide)
  rw [List.append_nil] at hfail
  exact hfail

end Buffer

end StreamBuffer
