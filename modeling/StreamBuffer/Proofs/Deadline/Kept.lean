/-
  StreamBuffer.Proofs.Deadline.Kept

  A deadline that was asked for is kept, and no operation is abandoned, provided that a
  thread can bear the name that the buffer was given for its timers.

  A change of the deadline is in two halves, and between them the old deadline is gone
  and the new one is not yet there. `Latest` follows the latest change through its
  second half: as long as nothing opens a further generation, the change stays the
  current one, and once its second half is done the deadline is provided for
  (`BufferState.Provided`): a timer is installed, or the deadline counts as reached.

  With a name that no thread can bear the second half never comes: the change is
  abandoned and its deadline is lost (`deadline_lost_of_nul`).
-/
import StreamBuffer.Proofs.Buffer.Blocking
import StreamBuffer.Proofs.Buffer.Bounds
import StreamBuffer.Proofs.Deadline.System
import StreamBuffer.Proofs.Session.Boundary

namespace StreamBuffer

/-- A timer is installed for the deadline, or it was reached. -/
def BufferState.Provided (s : BufferState) : Prop :=
  s.timer.isSome = true ∨ s.deadlineReached = true

namespace Buffer

/-- The actions that open a generation, or end the buffer. -/
def Action.Unsettles : Action → Prop
  | .close | .startDeadline _ _ | .abandon => True
  | .write _ | .read _ _ | .install _ _ | .startRefused _ | .fire _ => False

/-- No other action touches the generation, or takes the deadline away. -/
theorem provided_act {b : Buffer} {a : Action} (ha : ¬ a.Unsettles) :
    (b.act a).1.state.generation = b.state.generation
      ∧ (b.state.Provided → (b.act a).1.state.Provided) := by
  obtain ⟨-, hreached, htimer, hgeneration⟩ := fields_act b a
  rw [BufferState.Provided, BufferState.Provided, hgeneration, htimer, hreached]
  cases a with
  | write chunk => exact ⟨rfl, id⟩
  | read id call => exact ⟨rfl, fun h => h⟩
  | install generation timer =>
    simp only [change]
    split
    · exact ⟨rfl, fun _ => Or.inl rfl⟩
    · exact ⟨rfl, id⟩
  | startRefused generation =>
    simp only [change]
    split
    · exact ⟨rfl, fun _ => Or.inr rfl⟩
    · exact ⟨rfl, id⟩
  | fire generation =>
    simp only [change]
    split
    · exact ⟨rfl, fun _ => Or.inr rfl⟩
    · exact ⟨rfl, id⟩
  | close => exact absurd trivial ha
  | startDeadline now deadline => exact absurd trivial ha
  | abandon => exact absurd trivial ha

/-- The second half of the current change provides for its deadline, even if the timer
    was quicker. -/
theorem provided_install (b : Buffer) (timer : Nat) :
    (b.install b.state.generation timer).1.state.Provided := by
  rw [install]
  split
  · exact Or.inl rfl
  · rename_i h
    right
    rw [not_and, Bool.not_eq_false] at h
    exact h rfl

theorem provided_startRefused (b : Buffer) :
    (b.startRefused b.state.generation).1.state.Provided := by
  right
  obtain ⟨-, hreached, -, -⟩ := fields_act b (.startRefused b.state.generation)
  simp only [change, if_true] at hreached
  exact hreached

end Buffer

namespace Deadline

namespace System

/-! ## Single buffers with all changes of their deadlines -/

/-- What an event does to the buffer is an action, or nothing. -/
theorem eq_act_of_step {s t : System} {e : Event} (h : s.step e = some t) :
    t.buffer = s.buffer
      ∨ ∃ a : Buffer.Action, t.buffer = (s.buffer.act a).1
          ∧ (e.generations = 0 → ¬ a.Unsettles) := by
  cases e with
  | write chunk =>
    obtain rfl : _ = t := Option.some.inj h
    exact Or.inr ⟨.write chunk, rfl, fun _ => id⟩
  | read id call =>
    obtain rfl : _ = t := Option.some.inj h
    exact Or.inr ⟨.read id call, rfl, fun _ hu => hu⟩
  | close =>
    obtain rfl : _ = t := Option.some.inj h
    exact Or.inr ⟨.close, rfl, fun hzero => (by cases hzero)⟩
  | set now deadline =>
    obtain rfl : _ = t := Option.some.inj h
    exact Or.inr ⟨.startDeadline now deadline, rfl, fun hzero => (by cases hzero)⟩
  | start k =>
    obtain ⟨c, -, -, rfl⟩ := eq_of_step_start h
    exact Or.inl rfl
  | install k =>
    obtain ⟨c, -, -, rfl⟩ := eq_of_step_install h
    exact Or.inr ⟨.install c.generation k, rfl, fun _ => id⟩
  | refuse k =>
    obtain ⟨c, -, -, rfl⟩ := eq_of_step_refuse h
    exact Or.inr ⟨.startRefused c.generation, rfl, fun _ => id⟩
  | callback k =>
    obtain ⟨c, -, -, rfl⟩ := eq_of_step_callback h
    exact Or.inr ⟨.fire c.generation, rfl, fun _ => id⟩

theorem reachable_run {s t : System} {events : List Event} (h : s.run events = some t)
    (hs : s.buffer.Reachable) : t.buffer.Reachable := by
  induction events generalizing s with
  | nil =>
    obtain rfl : s = t := Option.some.inj h
    exact hs
  | cons e rest ih =>
    obtain ⟨mid, hstep, hrest⟩ := Option.bind_eq_some_iff.mp h
    apply ih hrest
    rcases eq_act_of_step hstep with hsame | ⟨a, hact, -⟩
    · rw [hsame]
      exact hs
    · rw [hact]
      exact hs.act a

/-- Every change in flight can go on: a thread that is still to be started may be
    started or refused, and one that was started hands its timer over. -/
def GoesOn (s : System) : Prop :=
  ∀ (k : Nat) (d : Change), s.changes[k]? = some d →
    (d.stage = .opened → (∃ t, s.step (.start k) = some t) ∧ ∃ t, s.step (.refuse k) = some t)
      ∧ (d.stage = .started → ∃ t, s.step (.install k) = some t)

/-- A thread that was started hands its timer over, whatever came before. -/
theorem exists_step_of_started {s : System} {k : Nat} {d : Change}
    (hd : s.changes[k]? = some d) (hstarted : d.stage = .started) :
    ∃ t, s.step (.install k) = some t := by
  obtain ⟨generation, stage⟩ := d
  obtain rfl : stage = .started := hstarted
  refine ⟨({ s with buffer := (s.buffer.install generation k).1 }).advance k .installed, ?_⟩
  simp only [step, hd]

/-! ## The latest change -/

/-- The latest change, of number `k`, is of the current generation and has a second
    half; once that is done, the deadline is provided for. -/
structure Latest (s : System) (k : Nat) : Prop where
  length_eq : s.changes.length = k + 1
  current : ∀ c : Change, s.changes[k]? = some c → c.generation = s.buffer.state.generation
  provided : ∀ c : Change, s.changes[k]? = some c →
    c.stage = .installed ∨ c.stage = .refused → s.buffer.state.Provided

/-- The first half of a change whose deadline is still to come makes it the latest. -/
theorem latest_set {s t : System} {now : Nat} {deadline : Instant}
    (hstep : s.step (.set now (some deadline)) = some t) (hcome : deadline.hasCome now = false) :
    t.Latest s.changes.length := by
  obtain rfl : _ = t := Option.some.inj hstep
  refine ⟨by simp, ?_, ?_⟩
  · intro c hc
    obtain rfl : _ = c := by simpa using hc
    rfl
  · intro c hc hstage
    obtain rfl : _ = c := by simpa using hc
    simp [Stage.ofDeadline, hcome] at hstage

/-- It stays so while a change, this one or another, comes further, if the buffer's
    part of the event leaves the generation alone and provides for the deadline where
    this change is then done. -/
theorem Latest.advance {s : System} {k : Nat} (h : s.Latest k) {buffer : Buffer} {j : Nat}
    {stage : Stage} (hgeneration : buffer.state.generation = s.buffer.state.generation)
    (hkeep : s.buffer.state.Provided → buffer.state.Provided)
    (hdone : j = k → stage = .installed ∨ stage = .refused → buffer.state.Provided) :
    (({ s with buffer } : System).advance j stage).Latest k := by
  have hget : ∀ c : Change, (({ s with buffer } : System).advance j stage).changes[k]? = some c →
      ∃ old : Change, s.changes[k]? = some old
        ∧ c = if j = k then { old with stage } else old := by
    intro c hc
    have hmodify : (({ s with buffer } : System).advance j stage).changes[k]?
        = (s.changes[k]?).map fun c => if j = k then { c with stage } else c :=
      List.getElem?_modify _ _ _ k
    rw [hmodify, Option.map_eq_some_iff] at hc
    obtain ⟨old, hold, hc⟩ := hc
    exact ⟨old, hold, hc.symm⟩
  refine ⟨(length_advance _ j stage).trans h.length_eq, ?_, ?_⟩
  · intro c hc
    obtain ⟨old, hold, rfl⟩ := hget c hc
    have hcur := h.current old hold
    show (if j = k then { old with stage } else old : Change).generation = buffer.state.generation
    rw [hgeneration, ← hcur]
    split <;> rfl
  · intro c hc hstage
    obtain ⟨old, hold, rfl⟩ := hget c hc
    by_cases hjk : j = k
    · rw [if_pos hjk] at hstage
      exact hdone hjk hstage
    · rw [if_neg hjk] at hstage
      exact hkeep (h.provided old hold hstage)

/-- Events of readers, writers and callbacks leave the changes alone. -/
theorem Latest.of_act {s : System} {k : Nat} (h : s.Latest k) {a : Buffer.Action}
    (ha : ¬ a.Unsettles) : ({ s with buffer := (s.buffer.act a).1 } : System).Latest k := by
  obtain ⟨hgeneration, hkeep⟩ := Buffer.provided_act (b := s.buffer) ha
  refine ⟨h.length_eq, ?_, ?_⟩
  · intro c hc
    rw [h.current c hc]
    exact hgeneration.symm
  · intro c hc hstage
    exact hkeep (h.provided c hc hstage)

/-- An event that opens no generation keeps the latest change the latest, and its
    deadline provided for. -/
theorem latest_step {s t : System} {k : Nat} {e : Event} (h : s.Latest k)
    (hstep : s.step e = some t) (hquiet : e.generations = 0) : t.Latest k := by
  cases e with
  | write chunk =>
    obtain rfl : _ = t := Option.some.inj hstep
    exact h.of_act (a := .write chunk) id
  | read id call =>
    obtain rfl : _ = t := Option.some.inj hstep
    exact h.of_act (a := .read id call) fun hu => hu
  | close => cases hquiet
  | set now deadline => cases hquiet
  | start j =>
    obtain ⟨c, -, -, rfl⟩ := eq_of_step_start hstep
    exact h.advance rfl id fun _ hdone => (by rcases hdone with hdone | hdone <;> cases hdone)
  | install j =>
    obtain ⟨c, hc, -, rfl⟩ := eq_of_step_install hstep
    obtain ⟨hgeneration, hkeep⟩ :=
      Buffer.provided_act (b := s.buffer) (a := .install c.generation j) id
    refine h.advance hgeneration hkeep fun hjk _ => ?_
    subst hjk
    rw [h.current c hc]
    exact s.buffer.provided_install j
  | refuse j =>
    obtain ⟨c, hc, -, rfl⟩ := eq_of_step_refuse hstep
    obtain ⟨hgeneration, hkeep⟩ :=
      Buffer.provided_act (b := s.buffer) (a := .startRefused c.generation) id
    refine h.advance hgeneration hkeep fun hjk _ => ?_
    subst hjk
    rw [h.current c hc]
    exact s.buffer.provided_startRefused
  | callback j =>
    obtain ⟨c, -, -, rfl⟩ := eq_of_step_callback hstep
    exact h.of_act (a := .fire c.generation) id

/-- The same over events one after the other. -/
theorem latest_run {s t : System} {k : Nat} {events : List Event} (h : s.Latest k)
    (hrun : s.run events = some t) (hquiet : ∀ e ∈ events, e.generations = 0) : t.Latest k := by
  induction events generalizing s with
  | nil =>
    obtain rfl : s = t := Option.some.inj hrun
    exact h
  | cons e rest ih =>
    obtain ⟨mid, hstep, hrest⟩ := Option.bind_eq_some_iff.mp hrun
    exact ih (latest_step h hstep (hquiet e List.mem_cons_self)) hrest
      fun x hx => hquiet x (List.mem_cons_of_mem e hx)

theorem run_append {s t : System} {before after : List Event}
    (h : s.run (before ++ after) = some t) :
    ∃ mid, s.run before = some mid ∧ mid.run after = some t := by
  induction before generalizing s with
  | nil => exact ⟨s, rfl, h⟩
  | cons e rest ih =>
    obtain ⟨next, hstep, hrest⟩ := Option.bind_eq_some_iff.mp h
    obtain ⟨mid, hbefore, hafter⟩ := ih hrest
    refine ⟨mid, ?_, hafter⟩
    rw [run, hstep]
    exact hbefore

end System

end Deadline

/-! ## Operations that are abandoned -/

/-- What a report answers, if there was a handle. -/
def Report.answer? : Report → Option Answer
  | .noHandle => none
  | .step answer _ _ _ _ _ => some answer

namespace Session

/-- A change of the deadline is abandoned exactly if its deadline is still to come and
    no thread can bear the buffer's name for its timers. -/
theorem startDeadline_eq_badThreadName_iff {s : Session} {b : Nat} {buffer : Buffer}
    (hbuffer : s.buffers[b]? = some buffer) (lead : Option Lead) :
    (s.startDeadline b lead).2.2 = .badThreadName ↔
      (∃ l, lead = some l ∧ (l.instant s.now).hasCome s.now = false)
        ∧ isThreadName buffer.threadName = false := by
  have hleads := (s.acts_onBuffer b
    (a := .startDeadline s.now (lead.map (Lead.instant s.now))) rfl).leads
  obtain ⟨buffer', hbuffer', hname⟩ := hleads.threadName_eq hbuffer
  rw [← hname]
  cases lead with
  | none =>
    rw [startDeadline]
    dsimp only
    split
    · rename_i hnone
      cases hnone
    · simp
  | some l =>
    have hafter : (s.onBuffer b (·.startDeadline s.now (some (l.instant s.now)))).1.buffers[b]?
        = some buffer' := hbuffer'
    have hopening : (s.startDeadline b (some l)).2.2
        = if (l.instant s.now).hasCome s.now then .complete
          else if !isThreadName buffer'.threadName then .badThreadName
          else .inFlight
            { buffer := b
              generation := buffer'.state.generation
              deadline := l.instant s.now } := by
      obtain ⟨buffers, alarms, records, hsame⟩ :=
        s.onBuffer_eq b (·.startDeadline s.now (some (l.instant s.now)))
      rw [hsame] at hafter
      simp only [startDeadline, Option.map_some, hsame, hafter]
      split
      · rfl
      · split <;> rfl
    rw [hopening]
    cases hcome : (l.instant s.now).hasCome s.now with
    | true => simp [hcome]
    | false =>
      cases hthread : isThreadName buffer'.threadName with
      | true => simp
      | false => simp [hcome]

end Session

/-- An operation through a handle of a buffer whose name for its timers a thread can
    bear is not abandoned, and neither is one that runs inside it. -/
theorem Op.answer?_run_ne_badThreadName {s : Session} {op : Op} {b : Nat} {buffer : Buffer}
    (hhandle : s.bufferOf? op.handle = some b) (hbuffer : s.buffers[b]? = some buffer)
    (hname : isThreadName buffer.threadName = true) :
    (op.run s).2.answer? ≠ some .badThreadName := by
  cases op with
  | create h config => simp [Op.run, Session.report, Report.answer?]
  | share h =>
    have hb : s.bufferOf? h = some b := hhandle
    simp [Op.run, Session.withHandle, hb, Session.report, Report.answer?]
  | drop h =>
    have hb : s.bufferOf? h = some b := hhandle
    simp [Op.run, Session.withHandle, hb, Session.dropReport, Report.answer?]
  | write h chunk =>
    have hb : s.bufferOf? h = some b := hhandle
    simp [Op.run, Session.withHandle, hb, Session.report, Report.answer?]
  | close h =>
    have hb : s.bufferOf? h = some b := hhandle
    simp [Op.run, Session.withHandle, hb, Session.report, Report.answer?]
  | inspect h =>
    have hb : s.bufferOf? h = some b := hhandle
    simp [Op.run, Session.withHandle, hb, Session.report, Report.answer?, Session.summary?,
      hbuffer]
  | read h call =>
    have hb : s.bufferOf? h = some b := hhandle
    simp only [Op.run, Session.withHandle, hb, Session.report, Report.answer?]
    split <;> simp
  | deadline h lead during launch =>
    have hb : s.bufferOf? h = some b := hhandle
    have hopening : (s.startDeadline b lead).2.2 ≠ .badThreadName := by
      rw [ne_eq, Session.startDeadline_eq_badThreadName_iff hbuffer, hname]
      simp
    simp only [Op.run, Session.withHandle, hb]
    split
    · simp [Session.report, Report.answer?]
    · rename_i hbad
      exact absurd hbad hopening
    · simp [Session.report, Report.answer?]
  | elapse h => simp [Op.run, Session.report, Report.answer?]

/-! ## Deadlines are kept -/

namespace Deadline

/-- With a name that a thread can bear, nothing goes wrong: storage is sized within its
    limit, no operation through a handle of the buffer is abandoned, whatever else the
    session does, every copy keeps within its bounds, and every change in flight can go
    on. And no deadline is lost: once the second half of a change is done whose deadline
    was still to come, and as long as no further generation is opened, a timer is
    installed or the deadline was reached; so that who waits then has a timer. -/
theorem deadline_kept {c : Config} (hname : isThreadName c.timerThreadName = true) :
    (c.effectiveCapacity ≤ Config.maxCapacity
        ∧ (∀ (s t : Session) (ops : List Op) (seen : List Report)
            (underway : List (Nat × Outcome)) (op : Op),
            Session.Boundary (s.create c).1 ops seen underway t →
            t.bufferOf? op.handle = some s.buffers.length →
            (op.run t).2.answer? ≠ some .badThreadName)
        ∧ ∀ (events : List Event) (s : System), (System.ofConfig c).run events = some s →
            s.buffer.CopiesInBounds ∧ s.GoesOn)
      ∧ ∀ (before after : List Event) (now : Nat) (deadline : Instant) (s : System) (d : Change),
          deadline.hasCome now = false →
          (System.ofConfig c).run (before ++ .set now (some deadline) :: after) = some s →
          (∀ e ∈ after, e.generations = 0) →
          s.changes.getLast? = some d → (d.stage = .installed ∨ d.stage = .refused) →
          s.buffer.state.Provided
            ∧ (s.buffer.waiting ≠ [] → s.buffer.state.timer.isSome = true) := by
  refine ⟨⟨?_, ?_, ?_⟩, ?_⟩
  · rw [Config.effectiveCapacity]
    split
    · assumption
    · exact UInt64.le_refl _
  · intro s t ops seen underway op hboundary hhandle
    have hmade : (s.create c).1.buffers[s.buffers.length]? = some (.ofConfig c) :=
      List.getElem?_concat_length
    obtain ⟨buffer, hbuffer, hsame⟩ := hboundary.leads.threadName_eq hmade
    have hbears : isThreadName buffer.threadName = true := by
      rw [hsame]
      exact hname
    exact Op.answer?_run_ne_badThreadName hhandle hbuffer hbears
  · intro events s hrun
    have hreach : s.buffer.Reachable := System.reachable_run hrun (.ofConfig c)
    refine ⟨hreach.copiesInBounds, ?_⟩
    intro k d hd
    exact ⟨System.exists_step_of_opened hname hrun hd, System.exists_step_of_started hd⟩
  · intro before after now deadline s d hcome hrun hquiet hlast hdone
    obtain ⟨old, hbefore, hrest⟩ := System.run_append hrun
    obtain ⟨mid, hset, hafter⟩ := Option.bind_eq_some_iff.mp hrest
    have hlatest := System.latest_run (System.latest_set hset hcome) hafter hquiet
    have hprovided : s.buffer.state.Provided := by
      apply hlatest.provided d _ hdone
      rw [← hlast, List.getLast?_eq_getElem?, hlatest.length_eq, Nat.add_sub_cancel]
    refine ⟨hprovided, ?_⟩
    intro hwaits
    -- a reader waits at a deadline that is not reached only
    obtain ⟨r, hr⟩ := List.exists_mem_of_ne_nil _ hwaits
    have hreach : s.buffer.Reachable := System.reachable_run hrun (.ofConfig c)
    obtain ⟨-, hreached, -⟩ := hreach.waitsOpen r hr
    rcases hprovided with harmed | hover
    · exact harmed
    · rw [hreached] at hover
      cases hover

/-- The timer of an overtaken change comes late and is given up, the thread of the
    latest change is refused: its deadline counts as reached at once. -/
theorem deadline_kept_refused :
    let events : List Event := [.set 0 (some (.tick 3)), .start 0] ++
      .set 1 (some .never) :: [.callback 0, .write [1], .refuse 1, .install 0]
    isThreadName (Config.timerThreadName {}) = true
      ∧ ∃ s : System, (System.ofConfig {}).run events = some s
          ∧ s.buffer.state.timer = none ∧ s.buffer.state.deadlineReached = true := by
  intro events
  have hname : isThreadName (Config.timerThreadName {}) = true := by decide +kernel
  refine ⟨hname, _, rfl, ?_, ?_⟩
  · decide +kernel
  have hprovided := ((deadline_kept hname).2 [.set 0 (some (.tick 3)), .start 0]
    [.callback 0, .write [1], .refuse 1, .install 0] 1 .never _ ⟨2, .refused⟩ rfl rfl
    (by decide) (by decide +kernel) (Or.inr rfl)).1
  exact hprovided.resolve_left (by decide +kernel)

/-- No thread can bear a name with a NUL character, and the change of the deadline is
    abandoned between its halves: the old deadline is gone, the new one is not there,
    and a read waits with no timer. -/
theorem deadline_lost_of_nul :
    Session.reports { timerThreadName := "timer\x00" }
        [.deadline 0 (some (.past 0)) [] .prompt, .deadline 0 (some .far) [] .prompt,
          .read 0 (.read 1)]
      = [.step .deadlineSet none [] [] [.deadlinePassed]
          (some { segments := 0, drained := true, closed := false, deadlineReached := true,
                  timerArmed := false }),
        .step .badThreadName none [] [] []
          (some { segments := 0, drained := true, closed := false, deadlineReached := false,
                  timerArmed := false }),
        .step (.blocked 0) none [] [0] [.blocking false]
          (some { segments := 0, drained := true, closed := false, deadlineReached := false,
                  timerArmed := false })] := by
  with_unfolding_all rfl

end Deadline

end StreamBuffer
