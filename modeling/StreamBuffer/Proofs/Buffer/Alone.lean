/-
  StreamBuffer.Proofs.Buffer.Alone

  A call that is alone on its buffer: no other waits when it begins, and none begins before it
  ends.

  Then every action that wakes anybody wakes this call, and it stands after each action where
  `Reader.gather` or `Reader.conclude` say (`stands_act_of_open`, `stands_act_of_over`). Over a
  run the bytes add up: as long as neither flag is set, the call stands where it would have
  stood had all bytes been there from the start (`stands_runCall_of_open`), and the action that
  sets a flag ends it (`stands_runCall_of_closed`, `stands_runCall_of_reached`). After that
  nothing ends it again (`not_mem_endedIds_runAll`).

  The flags do not depend on the call: at every step they are those of any other call in the
  same run (`control_runCall`).
-/
import StreamBuffer.Proofs.Buffer.Blocking
import StreamBuffer.Proofs.Buffer.Calls
import StreamBuffer.Proofs.Buffer.Closing
import StreamBuffer.Proofs.Reader.Gathering

namespace StreamBuffer

namespace Buffer

/-! ## Where a call stands -/

/-- After `out` the one call on the buffer, with the number `id`, has ended or waits as
    `standing` says, and `left` is unread. -/
structure Stands (out : Buffer × Effects) (id : Nat) (standing : Outcome ⊕ Reader)
    (left : Bytes) : Prop where
  waiting_eq : out.1.waiting = standing.elim (fun _ => []) (fun r => [r])
  ended_eq : out.2.ended = standing.elim (fun o => [(id, o)]) (fun _ => [])
  unread_eq : out.1.state.queue.unread = left

theorem stands_accept {b : Buffer} (hline : b.waiting = []) (id : Nat) (a : Advance) :
    Stands (b.accept id a) id a.standing a.state.queue.unread := by
  cases hstanding : a.standing with
  | inl o =>
    rw [accept_of_ended b id hstanding]
    exact ⟨hline, rfl, rfl⟩
  | inr r =>
    rw [accept_of_waits b id hstanding]
    refine ⟨?_, rfl, rfl⟩
    show b.waiting ++ [r] = [r]
    rw [hline, List.nil_append]

/-- A call that went on while nothing had ended stands where its last action left it. -/
theorem Stands.trans {out next : Buffer × Effects} {id : Nat} {r : Reader} {left left' : Bytes}
    {standing : Outcome ⊕ Reader} (h : Stands out id (.inr r) left)
    (hnext : Stands next id standing left') :
    Stands (next.1, out.2 ++ next.2) id standing left' := by
  refine ⟨hnext.waiting_eq, ?_, hnext.unread_eq⟩
  rw [Effects.ended_append, h.ended_eq]
  exact hnext.ended_eq

/-! ## The start -/

section Start

variable {b : Buffer} {id : Nat} {call : Call} (hline : b.waiting = [])
  (hwant : 0 < ({ id, call } : Reader).want)
include hline hwant

/-- To start a call that wants bytes is to enter a read. -/
theorem stands_read :
    let a := ({ id, call } : Reader).proceed b.state true
    Stands (b.act (.read id call)) id a.standing a.state.queue.unread := by
  have hstart : ({ id, call } : Reader).start b.state
      = ({ id, call } : Reader).proceed b.state true := by
    rw [Reader.start]
    split
    · -- only an empty destination is filled without a read
      rename_i hcall
      obtain rfl : call = .fill 0 := hcall
      exact absurd hwant (Nat.lt_irrefl 0)
    · rfl
  show Stands (b.accept id (({ id, call } : Reader).start b.state)) id _ _
  rw [hstart]
  exact stands_accept hline id _

theorem stands_read_of_open (h : b.state.Open) :
    Stands (b.act (.read id call)) id (({ id, call } : Reader).gather b.state.queue.unread).1
      (({ id, call } : Reader).gather b.state.queue.unread).2 := by
  obtain ⟨hstanding, hunread⟩ := Reader.proceed_of_open true h hwant
  rw [← hstanding, ← hunread]
  exact stands_read hline hwant

theorem stands_read_of_closed (h : b.state.Over .endOfStream) :
    let ends := ({ id, call } : Reader).conclude .endOfStream b.state.queue.unread
    Stands (b.act (.read id call)) id (.inl ends.1) ends.2 := by
  intro ends
  obtain ⟨hstanding, hunread⟩ := Reader.proceed_of_over true (Or.inr rfl) h hwant
  rw [← hstanding, ← hunread]
  exact stands_read hline hwant

end Start

/-! ## One action -/

/-- Without a call that begins, an action on a buffer where one reader waits wakes nobody, or
    has this reader run alone. -/
theorem act_of_alone {b : Buffer} {r : Reader} {a : Action} (hline : b.waiting = [r])
    (hbegun : a.begun = []) :
    ((b.change a).2 = .nobody ∧ (b.act a).1 = b.changed a ∧ (b.act a).2.ended = [])
      ∨ (let served := ({ b.changed a with waiting := [] } : Buffer).serve r
        (b.act a).1 = served.1 ∧ (b.act a).2.ended = served.2.ended) := by
  obtain ⟨hbuffer, hended, -⟩ := act_eq b a
  have hline' : (b.changed a).waiting = [r] := hline
  cases hw : (b.change a).2 with
  | nobody =>
    rw [hw] at hbuffer hended
    exact Or.inl ⟨rfl, hbuffer, hended⟩
  | longest =>
    rw [hw, wake, wakeOne, hline'] at hbuffer hended
    exact Or.inr ⟨hbuffer, hended⟩
  | everybody =>
    rw [hw, wake, wakeAll, hline'] at hbuffer hended
    refine Or.inr ⟨hbuffer, ?_⟩
    rw [hended]
    exact List.append_nil _
  | newcomer new =>
    have hnew := begun_change b a
    rw [hw, hbegun] at hnew
    cases hnew

section Act

variable {b : Buffer} {r : Reader} {a : Action}

/-- Beside a stuck reader the queue of the change has the action's bytes only. -/
theorem unread_changed_of_stuck (hstuck : r.Stuck b.state) :
    (b.changed a).state.queue.unread = a.chunk := by
  show (b.change a).1.queue.unread = a.chunk
  rw [unread_change, hstuck.unread_eq_nil, List.nil_append]

theorem control_changed (b : Buffer) (a : Action) :
    (b.changed a).state.control = (b.act a).1.state.control := (control_act b a).symm

variable (hline : b.waiting = [r]) (hstuck : r.Stuck b.state) (hbegun : a.begun = [])
include hline hstuck hbegun

/-- The reader stands where its run on the changed buffer leaves it; where it did not run, a
    run would have left it as it was. -/
theorem stands_act_of_proceed {standing : Outcome ⊕ Reader} {left : Bytes}
    (hrun : (r.proceed (b.changed a).state false).standing = standing
      ∧ (r.proceed (b.changed a).state false).state.queue.unread = left)
    (hidle : (b.change a).2 = .nobody → standing = .inr r ∧ left = []) :
    Stands (b.act a) r.id standing left := by
  rcases act_of_alone hline hbegun with ⟨hnobody, hbuffer, hended⟩ | ⟨hbuffer, hended⟩
  · obtain ⟨rfl, rfl⟩ := hidle hnobody
    refine ⟨?_, hended, ?_⟩
    · rw [hbuffer]
      exact hline
    · rw [hbuffer, unread_changed_of_stuck hstuck]
      exact chunk_eq_nil (by rw [hnobody]; simp)
  · -- whoever is woken, it is this reader, and nobody is left behind it
    have hserve := stands_accept (b := { b.changed a with waiting := [] }) rfl r.id
      (r.resume (b.changed a).state)
    rw [← hrun.1, ← hrun.2]
    refine ⟨?_, ?_, ?_⟩
    · rw [hbuffer]
      exact hserve.waiting_eq
    · rw [hended]
      exact hserve.ended_eq
    · rw [hbuffer]
      exact hserve.unread_eq

/-- As long as neither flag is set the reader gathers what the action writes. -/
theorem stands_act_of_open (hopen : (b.act a).1.state.Open) :
    Stands (b.act a) r.id (r.gather a.chunk).1 (r.gather a.chunk).2 := by
  have hopen' : (b.changed a).state.Open := hopen.of_control_eq (control_changed b a)
  have hrun := Reader.proceed_of_open false hopen' hstuck.want_pos
  rw [unread_changed_of_stuck hstuck] at hrun
  refine stands_act_of_proceed hline hstuck hbegun hrun fun hnobody => ?_
  rw [chunk_eq_nil (b := b) (by rw [hnobody]; simp), Reader.gather_nil hstuck.want_pos]
  exact ⟨rfl, rfl⟩

/-- The action that sets a flag writes nothing and ends the reader. -/
theorem stands_act_of_over {cause : ReadError} (hover : (b.act a).1.state.Over cause) :
    a.chunk = []
      ∧ Stands (b.act a) r.id (.inl (r.conclude cause []).1) (r.conclude cause []).2 := by
  have hset : (b.state.closed = false ∧ (b.act a).1.state.closed = true)
      ∨ (b.state.deadlineReached = false ∧ (b.act a).1.state.deadlineReached = true) := by
    cases cause with
    | endOfStream => exact Or.inl ⟨hstuck.closed_eq_false, hover.1⟩
    | deadlineExceeded => exact Or.inr ⟨hstuck.deadlineReached_eq_false, hover.2⟩
  obtain ⟨cause', hends⟩ := ends_of_flag_set hset
  have hover' : (b.changed a).state.Over cause := hover.of_control_eq (control_changed b a)
  have hrun := Reader.proceed_of_over false (Or.inl rfl) hover' hstuck.want_pos
  rw [unread_changed_of_stuck hstuck, hends.chunk_eq_nil] at hrun
  refine ⟨hends.chunk_eq_nil, stands_act_of_proceed hline hstuck hbegun hrun fun hnobody => ?_⟩
  rw [(broadcasts_iff b a).mp hends.broadcasts] at hnobody
  cases hnobody

end Act

/-- An action sets one flag at most. -/
theorem open_or_over_act {b : Buffer} (h : b.state.Open) (a : Action) :
    (b.act a).1.state.Open ∨ ∃ cause, (b.act a).1.state.Over cause := by
  by_cases hopen : (b.act a).1.state.Open
  · exact Or.inl hopen
  · right
    have hset : (b.state.closed = false ∧ (b.act a).1.state.closed = true)
        ∨ (b.state.deadlineReached = false ∧ (b.act a).1.state.deadlineReached = true) := by
      rw [BufferState.Open, not_and_or, Bool.not_eq_false, Bool.not_eq_false] at hopen
      exact hopen.imp (fun hc => ⟨h.1, hc⟩) fun hr => ⟨h.2, hr⟩
    obtain ⟨cause, hends⟩ := ends_of_flag_set hset
    exact ⟨cause, (change_of_ends hends h.1 h.2).of_control_eq (control_act b a)⟩

/-! ## A run -/

/-- The calls that end in a run cut in two. -/
theorem ended_runAll_append (b : Buffer) (first second : List Action) :
    (b.runAll (first ++ second)).2.ended
      = (b.runAll first).2.ended ++ ((b.runAll first).1.runAll second).2.ended := by
  induction first generalizing b with
  | nil => rfl
  | cons a rest ih =>
    rw [List.cons_append, runAll_cons, runAll_cons, Effects.ended_append, Effects.ended_append,
      ih, List.append_assoc]

/-- All bytes that have come once these actions were carried out. -/
def soFar (b : Buffer) (actions : List Action) : Bytes := b.state.queue.unread ++ written actions

theorem soFar_nil (b : Buffer) : b.soFar [] = b.state.queue.unread := List.append_nil _

theorem soFar_concat (b : Buffer) (actions : List Action) (a : Action) :
    b.soFar (actions ++ [a]) = b.soFar actions ++ a.chunk := by
  rw [soFar, soFar, written_append, ← List.append_assoc]
  exact congrArg _ (List.append_nil a.chunk)

/-- The run in which a call begins and these actions follow. -/
def runCall (b : Buffer) (id : Nat) (call : Call) (during : List Action) : Buffer × Effects :=
  b.runAll (.read id call :: during)

theorem runCall_concat_fst (b : Buffer) (id : Nat) (call : Call) (front : List Action)
    (a : Action) :
    (b.runCall id call (front ++ [a])).1 = ((b.runCall id call front).1.act a).1 :=
  runAll_append_fst b (.read id call :: front) [a]

/-- To begin a call sets no flag. -/
theorem control_runCall_nil (b : Buffer) (id : Nat) (call : Call) :
    (b.runCall id call []).1.state.control = b.state.control :=
  control_act b (.read id call)

/-- After these actions neither flag is set, and what has come leaves the call waiting. -/
def Undecided (b : Buffer) (id : Nat) (call : Call) (during : List Action) : Prop :=
  (b.runCall id call during).1.state.Open
    ∧ ∃ r, (({ id, call } : Reader).gather (b.soFar during)).1 = .inr r

section Run

variable {b : Buffer} {id : Nat} {call : Call}

/-- Boundaries counted by the actions before them. -/
theorem undecided_of_take {during : List Action} {k : Nat}
    (h : ∀ j < k, b.Undecided id call (during.take j)) (front : List Action)
    (hfront : front <+: during.take k) (hne : front ≠ during.take k) :
    b.Undecided id call front := by
  have hlen : front.length < k := by
    have hle := hfront.length_le
    have hlt : front.length ≠ (during.take k).length := fun heq => hne (hfront.eq_of_length heq)
    rw [List.length_take] at hle hlt
    omega
  rw [List.prefix_iff_eq_take, List.take_take, Nat.min_eq_left hlen.le] at hfront
  rw [hfront]
  exact h front.length hlen

theorem Stands.runCall_nil {standing : Outcome ⊕ Reader} {left : Bytes}
    (h : Stands (b.act (.read id call)) id standing left) :
    Stands (b.runCall id call []) id standing left :=
  ⟨h.waiting_eq, (List.append_nil _).trans h.ended_eq, h.unread_eq⟩

/-- A call that waits goes on with the next action. -/
theorem Stands.runCall_concat {during : List Action} {a : Action} {r : Reader}
    {left left' : Bytes} {standing : Outcome ⊕ Reader}
    (h : Stands (b.runCall id call during) id (.inr r) left)
    (hnext : Stands ((b.runCall id call during).1.act a) id standing left') :
    Stands (b.runCall id call (during ++ [a])) id standing left' := by
  have hended : (b.runCall id call (during ++ [a])).2.ended
      = ((b.runCall id call during).1.act a).2.ended := by
    have hcut := ended_runAll_append b (.read id call :: during) [a]
    have hnone : (b.runAll (.read id call :: during)).2.ended = [] := h.ended_eq
    rw [hnone, List.nil_append] at hcut
    exact hcut.trans (List.append_nil _)
  refine ⟨?_, hended.trans hnext.ended_eq, ?_⟩
  · rw [runCall_concat_fst]
    exact hnext.waiting_eq
  · rw [runCall_concat_fst]
    exact hnext.unread_eq

variable (hwant : 0 < ({ id, call } : Reader).want)
include hwant

section Concat

variable {front : List Action} {a : Action} {r : Reader} (hbegun : a.begun = [])
  (hgather : (({ id, call } : Reader).gather (b.soFar front)).1 = .inr r)
  (hstuck : r.Stuck (b.runCall id call front).1.state)
  (hstands : Stands (b.runCall id call front) id (.inr r) [])
include hbegun hgather hstuck hstands

/-- One action more that leaves the flags alone brings more to gather. -/
theorem stands_runCall_concat (hopen : (b.runCall id call (front ++ [a])).1.state.Open) :
    Stands (b.runCall id call (front ++ [a])) id
      (({ id, call } : Reader).gather (b.soFar (front ++ [a]))).1
      (({ id, call } : Reader).gather (b.soFar (front ++ [a]))).2 := by
  have hid : r.id = id := (Reader.request_of_gather hgather hwant).1
  rw [runCall_concat_fst] at hopen
  have hact := stands_act_of_open hstands.waiting_eq hstuck hbegun hopen
  rw [hid, (Reader.gather_of_waits hgather).2, ← soFar_concat] at hact
  exact hstands.runCall_concat hact

/-- One action more that sets a flag brings nothing, and ends the call. -/
theorem stands_runCall_concat_of_over {cause : ReadError}
    (hover : (b.runCall id call (front ++ [a])).1.state.Over cause) :
    b.soFar (front ++ [a]) = b.soFar front
      ∧ Stands (b.runCall id call (front ++ [a])) id (.inl (r.conclude cause []).1)
          (r.conclude cause []).2 := by
  have hid : r.id = id := (Reader.request_of_gather hgather hwant).1
  rw [runCall_concat_fst] at hover
  obtain ⟨hchunk, hact⟩ := stands_act_of_over hstands.waiting_eq hstuck hbegun hover
  rw [hid] at hact
  rw [soFar_concat, hchunk, List.append_nil]
  exact ⟨rfl, hstands.runCall_concat hact⟩

end Concat

variable (hline : b.waiting = [])
include hline

/-- At its start a call gathers what is there, if neither flag is set. -/
theorem stands_runCall_nil (hopen : (b.runCall id call []).1.state.Open) :
    Stands (b.runCall id call []) id (({ id, call } : Reader).gather (b.soFar [])).1
      (({ id, call } : Reader).gather (b.soFar [])).2 := by
  have hopen' : b.state.Open := hopen.of_control_eq (control_runCall_nil b id call).symm
  rw [soFar_nil]
  exact (stands_read_of_open hline hwant hopen').runCall_nil

/-- A call that is undecided all the while waits with all that has come: by induction on the
    actions, from the first to the last. -/
theorem waits_runCall {during : List Action} (hbegun : ∀ a ∈ during, a.begun = [])
    (hundecided : ∀ front, front <+: during → b.Undecided id call front) :
    ∃ r, (({ id, call } : Reader).gather (b.soFar during)).1 = .inr r
      ∧ r.Stuck (b.runCall id call during).1.state
      ∧ Stands (b.runCall id call during) id (.inr r) [] := by
  -- where it is undecided, to know where it stands is enough
  have hstuck : ∀ {front r}, (b.runCall id call front).1.state.Open →
      (({ id, call } : Reader).gather (b.soFar front)).1 = .inr r →
      Stands (b.runCall id call front) id (({ id, call } : Reader).gather (b.soFar front)).1
        (({ id, call } : Reader).gather (b.soFar front)).2 →
      r.Stuck (b.runCall id call front).1.state
        ∧ Stands (b.runCall id call front) id (.inr r) [] := by
    intro front r hopen hr hstands
    rw [hr, (Reader.gather_of_waits hr).1] at hstands
    have hwant' : 0 < r.want := (Reader.request_of_gather hr hwant).2.2
    exact ⟨⟨hstands.unread_eq, hopen.1, hopen.2, hwant'⟩, hstands⟩
  induction during using List.reverseRecOn with
  | nil =>
    obtain ⟨hopen, r, hr⟩ := hundecided [] List.nil_prefix
    exact ⟨r, hr, hstuck hopen hr (stands_runCall_nil hwant hline hopen)⟩
  | append_singleton front a ih =>
    obtain ⟨r, hr, hfront, hstands⟩ := ih (fun x hx => hbegun x (List.mem_append_left _ hx))
      fun first hfirst => hundecided first (hfirst.trans (List.prefix_append front [a]))
    obtain ⟨hopen, r', hr'⟩ := hundecided (front ++ [a]) List.prefix_rfl
    have ha : a.begun = [] := hbegun a (by simp)
    exact ⟨r', hr', hstuck hopen hr'
      (stands_runCall_concat hwant ha hr hfront hstands hopen)⟩

/-- A call that was undecided up to the last action, or has only begun. -/
theorem last_cases {during : List Action} (hbegun : ∀ a ∈ during, a.begun = [])
    (hbefore : ∀ front, front <+: during → front ≠ during → b.Undecided id call front) :
    during = [] ∨ ∃ front a r, during = front ++ [a] ∧ a.begun = []
      ∧ (({ id, call } : Reader).gather (b.soFar front)).1 = .inr r
      ∧ r.Stuck (b.runCall id call front).1.state
      ∧ Stands (b.runCall id call front) id (.inr r) [] := by
  rcases List.eq_nil_or_concat during with rfl | ⟨front, a, rfl⟩
  · exact Or.inl rfl
  · right
    rw [List.concat_eq_append] at hbegun hbefore ⊢
    obtain ⟨r, hr⟩ := waits_runCall hwant hline
      (fun x hx => hbegun x (List.mem_append_left _ hx)) fun first hfirst => by
        refine hbefore first (hfirst.trans (List.prefix_append front [a])) ?_
        -- it is shorter
        rintro rfl
        have hlen := hfirst.length_le
        rw [List.length_append, List.length_singleton] at hlen
        omega
    exact ⟨front, a, r, rfl, hbegun a (by simp), hr⟩

variable {during : List Action} (hbegun : ∀ a ∈ during, a.begun = [])
  (hbefore : ∀ front, front <+: during → front ≠ during → b.Undecided id call front)
include hbegun hbefore

/-- While neither flag is set the call stands as if all bytes had been there from the start. -/
theorem stands_runCall_of_open (hopen : (b.runCall id call during).1.state.Open) :
    Stands (b.runCall id call during) id (({ id, call } : Reader).gather (b.soFar during)).1
      (({ id, call } : Reader).gather (b.soFar during)).2 := by
  rcases last_cases hwant hline hbegun hbefore with rfl | ⟨front, a, r, rfl, ha, hr, hstuck, hr'⟩
  · exact stands_runCall_nil hwant hline hopen
  · exact stands_runCall_concat hwant ha hr hstuck hr' hopen

/-- Once the buffer is closed the call has ended, as if it had begun then. -/
theorem stands_runCall_of_closed
    (hover : (b.runCall id call during).1.state.Over .endOfStream) :
    Stands (b.runCall id call during) id
      (.inl (({ id, call } : Reader).conclude .endOfStream (b.soFar during)).1)
      (({ id, call } : Reader).conclude .endOfStream (b.soFar during)).2 := by
  rcases last_cases hwant hline hbegun hbefore with rfl | ⟨front, a, r, rfl, ha, hr, hstuck, hr'⟩
  · have hover' : b.state.Over .endOfStream :=
      hover.of_control_eq (control_runCall_nil b id call).symm
    rw [soFar_nil]
    exact (stands_read_of_closed hline hwant hover').runCall_nil
  · obtain ⟨hfar, hstands⟩ := stands_runCall_concat_of_over hwant ha hr hstuck hr' hover
    rw [hfar, ← Reader.conclude_of_waits hr]
    exact hstands

/-- Once the deadline is reached, and it was not at the start, the call has ended with what it
    had. -/
theorem stands_runCall_of_reached (hreached : b.state.deadlineReached = false)
    (hover : (b.runCall id call during).1.state.Over .deadlineExceeded) :
    ∃ r, (({ id, call } : Reader).gather (b.soFar during)).1 = .inr r
      ∧ Stands (b.runCall id call during) id (.inl (r.conclude .deadlineExceeded []).1)
          (r.conclude .deadlineExceeded []).2 := by
  rcases last_cases hwant hline hbegun hbefore with rfl | ⟨front, a, r, rfl, ha, hr, hstuck, hr'⟩
  · -- the start sets no flag
    have hset : b.state.deadlineReached = true :=
      (hover.of_control_eq (control_runCall_nil b id call).symm).2
    rw [hreached] at hset
    cases hset
  · obtain ⟨hfar, hstands⟩ := stands_runCall_concat_of_over hwant ha hr hstuck hr' hover
    rw [hfar]
    exact ⟨r, hr, hstands⟩

/-- Up to its first flag, and with it, only one of them is set. -/
theorem open_or_over_runCall (hreached : b.state.deadlineReached = false) :
    (b.runCall id call during).1.state.Open
      ∨ ∃ cause, (b.runCall id call during).1.state.Over cause := by
  rcases last_cases hwant hline hbegun hbefore with rfl | ⟨front, a, r, rfl, -, -, hstuck, -⟩
  · have hstart := control_runCall_nil b id call
    rcases BufferState.open_or_over_of_unreached hreached with h | h
    · exact Or.inl (h.of_control_eq hstart)
    · exact Or.inr ⟨_, h.of_control_eq hstart⟩
  · rw [runCall_concat_fst]
    exact open_or_over_act ⟨hstuck.closed_eq_false, hstuck.deadlineReached_eq_false⟩ a

end Run

/-! ## The flags of a run -/

/-- What an action makes of the state but for its queue depends on nothing else. -/
theorem control_change (b : Buffer) (a : Action) :
    (b.change a).1.control = (({ state := b.state.control } : Buffer).change a).1.control := by
  let b' : Buffer := { state := b.state.control }
  show (b.change a).1.control = (b'.change a).1.control
  cases a with
  | install generation timer =>
    by_cases h : b.state.generation = generation ∧ b.state.deadlineReached = false
    · have h' : b'.state.generation = generation ∧ b'.state.deadlineReached = false := h
      rw [change, if_pos h, change, if_pos h']
      rfl
    · have h' : ¬(b'.state.generation = generation ∧ b'.state.deadlineReached = false) := h
      rw [change, if_neg h, change, if_neg h']
      rfl
  | startRefused generation =>
    by_cases h : b.state.generation = generation
    · have h' : b'.state.generation = generation := h
      rw [change, if_pos h, change, if_pos h']
      rfl
    · have h' : ¬b'.state.generation = generation := h
      rw [change, if_neg h, change, if_neg h']
      rfl
  | fire generation =>
    by_cases h : b.state.generation = generation
    · have h' : b'.state.generation = generation := h
      rw [change, if_pos h, change, if_pos h']
      rfl
    · have h' : ¬b'.state.generation = generation := h
      rw [change, if_neg h, change, if_neg h']
      rfl
  | _ => rfl

theorem control_runAll {b b' : Buffer} (h : b.state.control = b'.state.control)
    (actions : List Action) :
    (b.runAll actions).1.state.control = (b'.runAll actions).1.state.control := by
  induction actions generalizing b b' with
  | nil => exact h
  | cons a rest ih =>
    have hact : (b.act a).1.state.control = (b'.act a).1.state.control := by
      rw [control_act, control_act, control_change, h, ← control_change]
    exact ih hact

theorem control_runCall (b : Buffer) (id : Nat) (call call' : Call) (during : List Action) :
    (b.runCall id call during).1.state.control
      = (b.runCall id call' during).1.state.control := by
  have hstart : (b.act (.read id call)).1.state.control
      = (b.act (.read id call')).1.state.control :=
    (control_act b (.read id call)).trans (control_act b (.read id call')).symm
  exact control_runAll hstart during

/-! ## After the end -/

/-- A call that does not wait and does not begin does not end. -/
theorem not_mem_endedIds_runAll {b : Buffer} {id : Nat} (hwaiting : id ∉ b.waitingIds)
    {later : List Action} (hbegun : ∀ a ∈ later, id ∉ a.begun) :
    id ∉ endedIds (b.runAll later).2.ended := by
  induction later generalizing b with
  | nil => exact List.not_mem_nil
  | cons a rest ih =>
    have hnone : id ∉ b.waitingIds ++ a.begun := by
      rw [List.mem_append, not_or]
      exact ⟨hwaiting, hbegun a List.mem_cons_self⟩
    -- whoever ends or waits then has waited before or has begun
    have hact : id ∉ endedIds (b.act a).2.ended ++ (b.act a).1.waitingIds :=
      fun hmem => hnone ((balanced_act b a).mem_iff.mp hmem)
    rw [List.mem_append, not_or] at hact
    rw [runAll_cons, Effects.ended_append, endedIds_append, List.mem_append, not_or]
    exact ⟨hact.1, ih hact.2 fun x hx => hbegun x (List.mem_cons_of_mem a hx)⟩

end Buffer

end StreamBuffer
