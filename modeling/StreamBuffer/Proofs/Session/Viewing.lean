/-
  StreamBuffer.Proofs.Session.Viewing

  The transitions of a session, as seen from each of its buffers.

  `Does s b d t ended` says that `t` is what a deed makes of `s`: it makes of the view of its
  buffer what it makes of any such view, and ends the calls that it ends there, and all other
  views stay as they are. One lemma for each transition says so (`does_write`, `does_close`,
  `does_read`, `does_startDeadline`, `does_finishDeadline`, `does_create`).
-/
import StreamBuffer.Proofs.Session.View
import StreamBuffer.Proofs.Session.Tending
import StreamBuffer.Proofs.Buffer.Renumber

namespace StreamBuffer

/-! ## Instants seen from the present -/

theorem Instant.hasCome_ahead (i : Instant) (now k : Nat) :
    (i.ahead now).hasCome k = i.hasCome (now + k) := by
  cases i with
  | tick n =>
    simp only [ahead, hasCome, decide_eq_decide]
    omega
  | never => rfl

theorem Instant.ahead_ahead (i : Instant) (m k : Nat) : (i.ahead m).ahead k = i.ahead (m + k) := by
  cases i with
  | tick n => exact congrArg Instant.tick (Nat.sub_sub n m k)
  | never => rfl

theorem Lead.ahead_instant (l : Lead) (now : Nat) : (l.instant now).ahead now = l.instant 0 := by
  cases l with
  | past ago => simp [instant, Instant.ahead]
  | soon => simp [instant, Instant.ahead]
  | far => rfl

/-- What a lead names has come or not whatever the clock reads. -/
theorem Lead.hasCome_instant (l : Lead) (now : Nat) :
    (l.instant now).hasCome now = (l.instant 0).hasCome 0 := by
  rw [← l.ahead_instant now, Instant.hasCome_ahead, Nat.add_zero]

/-- To the buffer a change of the deadline is the same at every reading of the clock. -/
theorem Buffer.startDeadline_instant (b : Buffer) (now : Nat) (lead : Option Lead) :
    b.startDeadline now (lead.map (Lead.instant now))
      = b.startDeadline 0 (lead.map (Lead.instant 0)) := by
  cases lead with
  | none => rfl
  | some l =>
    have hreached := l.hasCome_instant now
    simp only [startDeadline, Option.map_some, Option.any_some, hreached]

/-! ## Buffers without their timers -/

namespace Buffer

theorem untimed_eq_renumber (b : Buffer) : b.untimed = b.renumber id b.state.generation none := by
  obtain ⟨threadName, state, waiting⟩ := b
  have hid : Reader.renumber id = id := rfl
  simp [untimed, renumber, BufferState.renumber, hid]

theorem renumberEnded_id (ended : List (Nat × Outcome)) : renumberEnded id ended = ended :=
  List.map_id ended

/-- The operation does the same to the buffer without its timer. -/
def Blind (f : Buffer → Buffer × Effects) : Prop :=
  ∀ b, (f b).1.untimed = (f b.untimed).1 ∧ (f b).2.ended = (f b.untimed).2.ended

theorem blind_write (chunk : Bytes) : Blind (·.write chunk) := by
  intro b
  have hgeneration : (b.write chunk).1.state.generation = b.state.generation :=
    (b.fields_act (.write chunk)).2.2.2
  obtain ⟨hbuffer, hended⟩ := write_renumber id b.state.generation none b chunk
  rw [untimed_eq_renumber b, untimed_eq_renumber (b.write chunk).1, hgeneration]
  exact ⟨hbuffer.symm, (hended.trans (renumberEnded_id _)).symm⟩

theorem blind_close : Blind close := by
  intro b
  have hgeneration : b.close.1.state.generation = b.state.generation + 1 :=
    (b.fields_act .close).2.2.2
  obtain ⟨hbuffer, hended⟩ := close_renumber id b.state.generation none b
  rw [untimed_eq_renumber b, untimed_eq_renumber b.close.1, hgeneration]
  exact ⟨hbuffer.symm, (hended.trans (renumberEnded_id _)).symm⟩

theorem blind_read (i : Nat) (call : Call) : Blind (·.read { id := i, call }) := by
  intro b
  have hgeneration : (b.read { id := i, call }).1.state.generation = b.state.generation :=
    (b.fields_act (.read i call)).2.2.2
  obtain ⟨hbuffer, hended⟩ := read_renumber id b.state.generation none b { id := i, call }
  rw [untimed_eq_renumber b, untimed_eq_renumber (b.read { id := i, call }).1, hgeneration]
  exact ⟨hbuffer.symm, (hended.trans (renumberEnded_id _)).symm⟩

theorem blind_startDeadline (now : Nat) (deadline : Option Instant) :
    Blind (·.startDeadline now deadline) := by
  intro b
  have hgeneration : (b.startDeadline now deadline).1.state.generation = b.state.generation + 1 :=
    (b.fields_act (.startDeadline now deadline)).2.2.2
  obtain ⟨hbuffer, hended⟩ := startDeadline_renumber id b.state.generation none b now deadline
  rw [untimed_eq_renumber b, untimed_eq_renumber (b.startDeadline now deadline).1, hgeneration]
  exact ⟨hbuffer.symm, (hended.trans (renumberEnded_id _)).symm⟩

theorem state_reachDeadline (b : Buffer) :
    b.reachDeadline.1.state.deadlineReached = true
      ∧ b.reachDeadline.1.state.timer = b.state.timer
      ∧ b.reachDeadline.1.state.generation = b.state.generation := by
  have hcontrol := (wakeAll_served
    { b with state := { b.state with deadlineReached := true } }).control_eq
  obtain ⟨-, hreached, htimer, hgeneration⟩ := BufferState.fields_of_control_eq hcontrol
  exact ⟨hreached, htimer, hgeneration⟩

theorem blind_reachDeadline : Blind reachDeadline := by
  intro b
  have hgeneration := b.state_reachDeadline.2.2
  obtain ⟨hbuffer, hended⟩ := reachDeadline_renumber id b.state.generation none b
  rw [untimed_eq_renumber b, untimed_eq_renumber b.reachDeadline.1, hgeneration]
  exact ⟨hbuffer.symm, (hended.trans (renumberEnded_id _)).symm⟩

end Buffer

/-- After its callback a timer is not taken any more. -/
theorem View.install_fire (v : View) (g : UInt64) (deadline : Instant) :
    (v.fire g).1.install (g, deadline) = (v.fire g).1 := by
  refine if_neg fun h => ?_
  rw [fire] at h
  split at h
  · obtain ⟨-, hreached⟩ := h
    cases hb : v.buffer with
    | none => simp_all [isCurrent]
    | some b =>
      simp only [ring, on, disarm, hb, Option.any_some, b.state_reachDeadline.1] at hreached
      cases hreached
  · rename_i hstale
    exact hstale h.1

namespace Timer

theorem deadline_leave (x : Timer) : x.leave.deadline = x.deadline := by
  obtain ⟨thread, hleave, -⟩ := x.leave_eq
  rw [hleave]

end Timer

namespace Session

/-! ## Timers in views -/

@[simp] theorem deadlineOf?_onTimer (s : Session) (i : Nat) {g : Timer → Timer}
    (hg : ∀ t, (g t).deadline = t.deadline) : (s.onTimer i g).deadlineOf? = s.deadlineOf? := by
  funext j
  rw [deadlineOf?, deadlineOf?, getElem?_onTimer, Option.map_map]
  congr 1
  funext a
  simp only [Function.comp_apply]
  split
  · exact hg a.timer
  · rfl

theorem deadlineOf?_onBuffer (s : Session) (b : Nat) (f : Buffer → Buffer × Effects) :
    (s.onBuffer b f).1.deadlineOf? = s.deadlineOf? := by
  cases hb : s.buffers[b]? with
  | none => rw [onBuffer_of_none hb]
  | some buffer =>
    funext i
    rw [deadlineOf?, deadlineOf?, getElem?_alarms_onBuffer hb, Option.map_map]
    congr 1
    funext a
    simp only [Function.comp_apply]
    split
    · exact a.timer.deadline_stop
    · rfl

/-- What a view is made of. -/
theorem view_congr {s t : Session} {b : Nat} (hnow : t.now = s.now)
    (hbuffer : t.buffers[b]? = s.buffers[b]?)
    (hdeadline : ∀ i, s.timerOf? b = some i → t.deadlineOf? i = s.deadlineOf? i)
    (harmings : t.armingsOf b = s.armingsOf b) : t.view b = s.view b := by
  have htimer : t.timerOf? b = s.timerOf? b := by
    rw [timerOf?, timerOf?, hbuffer]
  have harmed : t.armedOf? b = s.armedOf? b := by
    rw [armedOf?, armedOf?, htimer]
    cases h : s.timerOf? b with
    | none => rfl
    | some i => exact hdeadline i h
  simp only [view, hnow, hbuffer, harmed, harmings]

theorem view_onTimer (s : Session) (i b : Nat) {g : Timer → Timer}
    (hg : ∀ t, (g t).deadline = t.deadline) : (s.onTimer i g).view b = s.view b :=
  view_congr rfl rfl (fun j _ => congrFun (deadlineOf?_onTimer s i hg) j) rfl

/-! ## Operations on a buffer -/

theorem now_onBuffer (s : Session) (b : Nat) (f : Buffer → Buffer × Effects) :
    (s.onBuffer b f).1.now = s.now := by
  obtain ⟨buffers, alarms, records, hsame⟩ := s.onBuffer_eq b f
  rw [hsame]

theorem armingsOf_onBuffer (s : Session) (b c : Nat) (f : Buffer → Buffer × Effects) :
    (s.onBuffer b f).1.armingsOf c = s.armingsOf c := by
  rw [armingsOf, armings_onBuffer, armingsOf]

/-- The frame: an operation on one buffer changes the view of no other. -/
theorem view_onBuffer_ne (s : Session) {b c : Nat} (hc : c ≠ b) (f : Buffer → Buffer × Effects) :
    (s.onBuffer b f).1.view c = s.view c :=
  view_congr (s.now_onBuffer b f) (getElem?_onBuffer_ne hc.symm f)
    (fun i _ => congrFun (s.deadlineOf?_onBuffer b f) i) (s.armingsOf_onBuffer b c f)

theorem view_onBuffer_self {s : Session} {b : Nat} {buffer : Buffer}
    (hb : s.buffers[b]? = some buffer) (f : Buffer → Buffer × Effects) :
    (s.onBuffer b f).1.view b
      = { s.view b with
          buffer := some (f buffer).1.untimed
          armed := ((f buffer).1.state.timer.bind s.deadlineOf?).map (Instant.ahead s.now) } := by
  simp only [view, armedOf?, timerOf?, now_onBuffer, getElem?_onBuffer_self hb,
    deadlineOf?_onBuffer, armingsOf_onBuffer, Option.map_some, Option.bind_some]

theorem effects_onBuffer {s : Session} {b : Nat} {buffer : Buffer}
    (hb : s.buffers[b]? = some buffer) (f : Buffer → Buffer × Effects) :
    (s.onBuffer b f).2 = (f buffer).2 := by
  rw [onBuffer, hb]

theorem buffer_view {s : Session} {b : Nat} {buffer : Buffer} (hb : s.buffers[b]? = some buffer) :
    (s.view b).buffer = some buffer.untimed := by
  simp only [view, hb, Option.map_some]

theorem armed_view {s : Session} {b : Nat} {buffer : Buffer} (hb : s.buffers[b]? = some buffer) :
    (s.view b).armed = (buffer.state.timer.bind s.deadlineOf?).map (Instant.ahead s.now) := by
  simp only [view, armedOf?, timerOf?, hb, Option.bind_some]

theorem view_of_none {s : Session} {b : Nat} (hb : s.buffers[b]? = none) :
    (s.view b).buffer = none ∧ (s.view b).armed = none := by
  simp [view, armedOf?, timerOf?, hb]

/-- An operation that leaves the timer alone. -/
theorem view_onBuffer_on (s : Session) (b : Nat) {f : Buffer → Buffer × Effects}
    (hblind : Buffer.Blind f) (htimer : ∀ x, (f x).1.state.timer = x.state.timer) :
    ((s.onBuffer b f).1.view b, (s.onBuffer b f).2.ended) = (s.view b).on f := by
  cases hb : s.buffers[b]? with
  | none => simp only [onBuffer, hb, View.on, view, Option.map_none]
  | some buffer =>
    obtain ⟨hbuffer, hended⟩ := hblind buffer
    rw [view_onBuffer_self hb, effects_onBuffer hb, htimer, hbuffer, hended, ← armed_view hb,
      View.on, buffer_view hb]

/-- An operation that takes the timer out. -/
theorem view_onBuffer_disarm (s : Session) (b : Nat) {f : Buffer → Buffer × Effects}
    (hblind : Buffer.Blind f) (htimer : ∀ x, (f x).1.state.timer = none) :
    ((s.onBuffer b f).1.view b, (s.onBuffer b f).2.ended) = (s.view b).disarm.on f := by
  cases hb : s.buffers[b]? with
  | none =>
    obtain ⟨hbuffer, harmed⟩ := view_of_none hb
    have hsame : (s.view b).disarm = s.view b := by rw [View.disarm, ← harmed]
    simp only [onBuffer, hb, hsame, View.on, hbuffer]
  | some buffer =>
    obtain ⟨hbuffer, hended⟩ := hblind buffer
    have hin : (s.view b).disarm.buffer = some buffer.untimed := buffer_view hb
    rw [view_onBuffer_self hb, effects_onBuffer hb, htimer, hbuffer, hended, View.on, hin]
    rfl

/-- The last owner is gone. -/
theorem view_onBuffer_abandon (s : Session) (b : Nat) :
    (s.onBuffer b Buffer.abandon).1.view b = (s.view b).disarm := by
  have hboth := s.view_onBuffer_disarm b (f := Buffer.abandon) (fun _ => ⟨rfl, rfl⟩) fun _ => rfl
  refine (congrArg Prod.fst hboth).trans ?_
  rw [View.on, View.disarm, view]
  cases s.buffers[b]? <;> rfl

/-- To retire a buffer changes no more than that its timer is called off, if nothing holds on
    to it. -/
theorem view_retire (s : Session) (b c : Nat) :
    (s.retire b).view c
      = if c = b ∧ s.isAlive b = false then (s.view c).disarm else s.view c := by
  rw [retire]
  cases halive : s.isAlive b with
  | true => simp
  | false =>
    rw [if_neg Bool.false_ne_true]
    by_cases hc : c = b
    · subst hc
      rw [if_pos ⟨rfl, rfl⟩]
      exact s.view_onBuffer_abandon c
    · rw [if_neg fun h => hc h.1]
      exact s.view_onBuffer_ne hc _

/-! ## Deeds -/

/-- `t` is what the deed makes of `s`, and `ended` are the calls that it ends. -/
structure Does (s : Session) (b : Nat) (d : Deed) (t : Session) (ended : List (Nat × Outcome)) :
    Prop where
  here : (t.view b, ended) = (s.view b).act d
  elsewhere : ∀ c ≠ b, t.view c = s.view c

theorem does_write (s : Session) (b : Nat) (chunk : Bytes) :
    s.Does b (.write chunk) (s.write b chunk).1 (s.write b chunk).2.ended where
  here := s.view_onBuffer_on b (Buffer.blind_write chunk)
    fun x => (x.fields_act (.write chunk)).2.2.1
  elsewhere _ hc := s.view_onBuffer_ne hc _

theorem does_close (s : Session) (b : Nat) :
    s.Does b .close (s.close b).1 (s.close b).2.ended where
  here := s.view_onBuffer_disarm b Buffer.blind_close fun x => (x.fields_act .close).2.2.1
  elsewhere _ hc := s.view_onBuffer_ne hc _

theorem does_read (s : Session) (b : Nat) (call : Call) :
    s.Does b (.read s.started call) (s.read b call).1 (s.read b call).2.ended where
  here := view_onBuffer_on { s with started := s.started + 1 } b
    (Buffer.blind_read s.started call) fun x => (x.fields_act (.read s.started call)).2.2.1
  elsewhere _ hc := view_onBuffer_ne { s with started := s.started + 1 } hc _

/-! ## The first half of a change -/

/-- What the first half does to the buffer. -/
theorem view_onBuffer_startDeadline (s : Session) (b : Nat) (lead : Option Lead) :
    let first := s.onBuffer b (·.startDeadline s.now (lead.map (Lead.instant s.now)))
    (first.1.view b, first.2.ended)
      = (s.view b).disarm.on (·.startDeadline 0 (lead.map (Lead.instant 0))) := by
  have hsame : (fun x : Buffer => x.startDeadline s.now (lead.map (Lead.instant s.now)))
      = fun x => x.startDeadline 0 (lead.map (Lead.instant 0)) :=
    funext fun x => x.startDeadline_instant s.now lead
  rw [hsame]
  exact s.view_onBuffer_disarm b (Buffer.blind_startDeadline 0 _)
    fun x => (x.fields_act (.startDeadline 0 (lead.map (Lead.instant 0)))).2.2.1

/-- A change that is in flight shows in the view of its buffer only. -/
theorem view_cons_armings (s : Session) (a : Arming) :
    ({ s with armings := a :: s.armings } : Session).view a.buffer
        = { s.view a.buffer with
            armings := (a.generation, a.deadline.ahead s.now) :: (s.view a.buffer).armings }
      ∧ ∀ c ≠ a.buffer, ({ s with armings := a :: s.armings } : Session).view c = s.view c := by
  refine ⟨?_, fun c hc => ?_⟩
  · have hmine : ({ s with armings := a :: s.armings } : Session).armingsOf a.buffer
        = a :: s.armingsOf a.buffer := List.filter_cons_of_pos (beq_self_eq_true a.buffer)
    simp only [view, hmine, List.map_cons]
    rfl
  · have hother : ({ s with armings := a :: s.armings } : Session).armingsOf c = s.armingsOf c :=
      List.filter_cons_of_neg (by simpa using hc.symm)
    exact view_congr rfl rfl (fun _ _ => rfl) hother

/-- Whether the change is in flight then. -/
theorem view_startDeadline (s : Session) (b : Nat) (lead : Option Lead) :
    let first := (s.onBuffer b (·.startDeadline s.now (lead.map (Lead.instant s.now)))).1
    (s.startDeadline b lead).1.view b = (first.view b).enterFlight (lead.map (Lead.instant 0))
      ∧ ∀ c ≠ b, (s.startDeadline b lead).1.view c = first.view c := by
  intro first
  have hnow : first.now = s.now := s.now_onBuffer b _
  rw [startDeadline]
  dsimp only
  rw [show (s.onBuffer b (·.startDeadline s.now (lead.map (Lead.instant s.now)))).1 = first
    from rfl]
  cases hb : first.buffers[b]? with
  | none =>
    unfold View.enterFlight
    rw [(view_of_none hb).1]
    exact ⟨rfl, fun _ _ => rfl⟩
  | some buffer =>
    unfold View.enterFlight
    rw [buffer_view hb]
    cases lead with
    | none => exact ⟨rfl, fun _ _ => rfl⟩
    | some l =>
      have hcome : (l.instant s.now).hasCome first.now = (l.instant 0).hasCome 0 := by
        rw [hnow, l.hasCome_instant]
      have hahead : (l.instant s.now).ahead first.now = l.instant 0 := by
        rw [hnow, l.ahead_instant]
      dsimp only [Option.map_some]
      rw [hcome]
      cases (l.instant 0).hasCome 0 with
      | true => simp
      | false =>
        have hname : buffer.untimed.threadName = buffer.threadName := rfl
        rw [hname]
        cases isThreadName buffer.threadName with
        | false => simp
        | true =>
          obtain ⟨hhere, helsewhere⟩ := first.view_cons_armings
            { buffer := b, generation := buffer.state.generation, deadline := l.instant s.now }
          rw [hahead] at hhere
          rw [← buffer_view hb]
          exact ⟨hhere, helsewhere⟩

theorem does_startDeadline (s : Session) (b : Nat) (lead : Option Lead) :
    s.Does b (.startDeadline lead) (s.startDeadline b lead).1
      (s.startDeadline b lead).2.1.ended := by
  obtain ⟨hhere, helsewhere⟩ := s.view_startDeadline b lead
  have hfirst := s.view_onBuffer_startDeadline b lead
  have hended : (s.startDeadline b lead).2.1
      = (s.onBuffer b (·.startDeadline s.now (lead.map (Lead.instant s.now)))).2 := by
    rw [startDeadline]
    dsimp only
    split
    · split
      · rfl
      · split <;> rfl
    · rfl
  refine ⟨?_, fun c hc => (helsewhere c hc).trans (s.view_onBuffer_ne hc _)⟩
  rw [View.act, View.startDeadline]
  dsimp only
  rw [← hfirst, hhere, hended]

/-! ## The second half of a change -/

theorem isCurrent_view {s : Session} {b : Nat} {buffer : Buffer}
    (hb : s.buffers[b]? = some buffer) (g : UInt64) :
    (s.view b).isCurrent g = true ↔ buffer.state.generation = g := by
  rw [View.isCurrent, buffer_view hb]
  exact beq_iff_eq

theorem isCurrent_of_none {s : Session} {b : Nat} (hb : s.buffers[b]? = none) (g : UInt64) :
    ¬ (s.view b).isCurrent g = true := by
  rw [View.isCurrent, (view_of_none hb).1]
  exact Bool.false_ne_true

/-- The timer's callback. -/
theorem view_onBuffer_fire (s : Session) (b : Nat) (g : UInt64) :
    ((s.onBuffer b (·.fire g)).1.view b, (s.onBuffer b (·.fire g)).2.ended)
      = (s.view b).fire g := by
  cases hb : s.buffers[b]? with
  | none => simp only [onBuffer, hb, View.fire, if_neg (isCurrent_of_none hb g)]
  | some buffer =>
    have hview := buffer_view hb
    rw [view_onBuffer_self hb, effects_onBuffer hb]
    by_cases hcurrent : buffer.state.generation = g
    · let silent : Buffer := { buffer with state := { buffer.state with timer := none } }
      obtain ⟨hbuffer, hended⟩ := Buffer.blind_reachDeadline silent
      have htimer := silent.state_reachDeadline.2.1
      have hfire : (buffer.fire g).1 = silent.reachDeadline.1
          ∧ (buffer.fire g).2.ended = silent.reachDeadline.2.ended := by
        rw [Buffer.fire, if_pos hcurrent]
        exact ⟨rfl, rfl⟩
      rw [View.fire, if_pos ((isCurrent_view hb g).mpr hcurrent), hfire.1, hfire.2, hbuffer, hended,
        htimer, View.ring, View.on, View.disarm, hview]
      rfl
    · have hstale : (buffer.fire g).1 = buffer ∧ (buffer.fire g).2.ended = [] := by
        rw [Buffer.fire, if_neg hcurrent]
        exact ⟨rfl, rfl⟩
      rw [View.fire, if_neg (mt (isCurrent_view hb g).mp hcurrent), hstale.1, hstale.2, ← hview,
        ← armed_view hb]

/-- The timer's thread is refused. -/
theorem view_onBuffer_refuse (s : Session) (b : Nat) (g : UInt64) (i : Instant) :
    ((s.onBuffer b (·.startRefused g)).1.view b, (s.onBuffer b (·.startRefused g)).2.ended)
      = (s.view b).refuse (g, i) := by
  cases hb : s.buffers[b]? with
  | none => simp only [onBuffer, hb, View.refuse, if_neg (isCurrent_of_none hb g)]
  | some buffer =>
    have hview := buffer_view hb
    rw [view_onBuffer_self hb, effects_onBuffer hb]
    by_cases hcurrent : buffer.state.generation = g
    · obtain ⟨hbuffer, hended⟩ := buffer.blind_reachDeadline
      have hrefused : (buffer.startRefused g).1 = buffer.reachDeadline.1
          ∧ (buffer.startRefused g).2.ended = buffer.reachDeadline.2.ended := by
        rw [Buffer.startRefused, if_pos hcurrent]
        exact ⟨rfl, rfl⟩
      rw [View.refuse, if_pos ((isCurrent_view hb g).mpr hcurrent), hrefused.1, hrefused.2, hbuffer,
        hended, buffer.state_reachDeadline.2.1, ← armed_view hb, View.on, hview]
    · have hstale : (buffer.startRefused g).1 = buffer ∧ (buffer.startRefused g).2.ended = [] := by
        rw [Buffer.startRefused, if_neg hcurrent]
        exact ⟨rfl, rfl⟩
      rw [View.refuse, if_neg (mt (isCurrent_view hb g).mp hcurrent), hstale.1, hstale.2, ← hview,
        ← armed_view hb]

/-- A timer is handed over. -/
theorem view_onBuffer_install (s : Session) (b i : Nat) (g : UInt64) {deadline : Instant}
    (hi : s.deadlineOf? i = some deadline) :
    (s.onBuffer b (·.install g i)).1.view b
        = (s.view b).install (g, deadline.ahead s.now)
      ∧ (s.onBuffer b (·.install g i)).2.ended = [] := by
  cases hb : s.buffers[b]? with
  | none =>
    have hnot : ¬ ((s.view b).isCurrent g = true
        ∧ (s.view b).buffer.any (·.state.deadlineReached) = false) :=
      fun h => isCurrent_of_none hb g h.1
    simp only [onBuffer, hb, View.install, if_neg hnot, and_self]
  | some buffer =>
    have hview := buffer_view hb
    have htaken : ((s.view b).isCurrent g = true
          ∧ (s.view b).buffer.any (·.state.deadlineReached) = false)
        ↔ (buffer.state.generation = g ∧ buffer.state.deadlineReached = false) := by
      rw [isCurrent_view hb, hview]
      rfl
    rw [view_onBuffer_self hb, effects_onBuffer hb, View.install, if_congr htaken rfl rfl]
    by_cases hcurrent : buffer.state.generation = g ∧ buffer.state.deadlineReached = false
    · let taken : Buffer := { buffer with state := { buffer.state with timer := some i } }
      have hinstall : (buffer.install g i).1 = taken ∧ (buffer.install g i).2.ended = [] := by
        rw [Buffer.install, if_pos hcurrent]
        exact ⟨rfl, rfl⟩
      have hdeadline : taken.state.timer.bind s.deadlineOf? = some deadline := hi
      rw [if_pos hcurrent, hinstall.1, hinstall.2, hdeadline]
      refine ⟨?_, rfl⟩
      rw [show taken.untimed = buffer.untimed from rfl, ← hview]
      rfl
    · have hinstall : (buffer.install g i).1 = buffer ∧ (buffer.install g i).2.ended = [] := by
        rw [Buffer.install, if_neg hcurrent]
        exact ⟨rfl, rfl⟩
      rw [if_neg hcurrent, hinstall.1, hinstall.2, ← hview, ← armed_view hb]
      exact ⟨rfl, rfl⟩

/-- To start a timer's thread changes no view. -/
theorem view_startThread {s : Session} (h : s.Tended none) (a : Arming) (b : Nat) :
    (s.startThread a).view b = s.view b := by
  refine view_congr rfl rfl (fun i hi => ?_) rfl
  obtain ⟨buffer, hb, htimer⟩ := Option.bind_eq_some_iff.mp hi
  obtain ⟨alarm, halarm, -⟩ := h.installed hb htimer (by simp)
  have hlt : i < s.alarms.length := (List.getElem?_eq_some_iff.mp halarm).1
  show (s.alarms ++ [a.alarm])[i]?.map _ = s.alarms[i]?.map _
  rw [List.getElem?_append_left hlt]

/-- A timer is started for a change and handed over. -/
theorem view_launch {s : Session} (h : s.Tended none) (a : Arming) (k : Nat) :
    ((s.launch a (s.now + k)).1.view a.buffer, (s.launch a (s.now + k)).2.ended)
        = (s.view a.buffer).launch (a.generation, a.deadline.ahead s.now) k
      ∧ ∀ c ≠ a.buffer, (s.launch a (s.now + k)).1.view c = s.view c := by
  let i := s.alarms.length
  let started := s.startThread a
  let woken := started.onTimer i (·.wake (s.now + k))
  have hfresh : started.alarms[i]? = some a.alarm := List.getElem?_concat_length
  have hlaunch : s.launch a (s.now + k)
      = (((started.wakeAlarm (s.now + k) i).1.onBuffer a.buffer (·.install a.generation i)).1,
        (started.wakeAlarm (s.now + k) i).2
          ++ ((started.wakeAlarm (s.now + k) i).1.onBuffer a.buffer
            (·.install a.generation i)).2) :=
    rfl
  have hwoken : ∀ c, woken.view c = s.view c := fun c =>
    (started.view_onTimer i c fun x => x.deadline_wake _).trans (view_startThread h a c)
  rw [hlaunch, View.launch, Instant.hasCome_ahead]
  rcases wakeAlarm_cases hfresh (by simp [Arming.alarm]) (s.now + k)
    with ⟨-, -, hcome, hwake⟩ | ⟨hnot, -, -, -, hwake⟩
  · -- the callback runs, and the timer is over when it is handed over
    let fired := woken.onBuffer a.buffer (·.fire a.generation)
    let left := fired.1.onTimer i Timer.leave
    have hleft : ∀ c, left.view c = fired.1.view c := fun c =>
      fired.1.view_onTimer i c Timer.deadline_leave
    have hfired := woken.view_onBuffer_fire a.buffer a.generation
    have hdeadline : left.deadlineOf? i = some a.deadline := by
      rw [deadlineOf?_onTimer _ _ Timer.deadline_leave, deadlineOf?_onBuffer,
        deadlineOf?_onTimer _ _ fun x => x.deadline_wake _, deadlineOf?, hfresh]
      rfl
    obtain ⟨hinstall, hnone⟩ := left.view_onBuffer_install a.buffer i a.generation hdeadline
    rw [hwoken] at hfired
    have hview : fired.1.view a.buffer = ((s.view a.buffer).fire a.generation).1 :=
      congrArg Prod.fst hfired
    have hended : fired.2.ended = ((s.view a.buffer).fire a.generation).2 :=
      congrArg Prod.snd hfired
    rw [hwake, if_pos (show a.deadline.hasCome (s.now + k) = true from hcome)]
    refine ⟨?_, fun c hc => ?_⟩
    · refine Prod.ext ?_ ?_
      · show (left.onBuffer a.buffer (·.install a.generation i)).1.view a.buffer = _
        rw [hinstall, hleft, hview, View.install_fire]
      · show fired.2.ended ++ (left.onBuffer a.buffer (·.install a.generation i)).2.ended = _
        rw [hnone, List.append_nil]
        exact hended
    · show (left.onBuffer a.buffer (·.install a.generation i)).1.view c = _
      rw [left.view_onBuffer_ne hc, hleft, woken.view_onBuffer_ne hc, hwoken]
  · -- the thread sleeps
    have hnotYet : a.deadline.hasCome (s.now + k) = false := hnot rfl rfl
    have hnow : woken.now = s.now := rfl
    have hdeadline : woken.deadlineOf? i = some a.deadline := by
      rw [deadlineOf?_onTimer _ _ fun x => x.deadline_wake _, deadlineOf?, hfresh]
      rfl
    obtain ⟨hinstall, hnone⟩ := woken.view_onBuffer_install a.buffer i a.generation hdeadline
    rw [hwake, hnotYet, if_neg Bool.false_ne_true]
    refine ⟨Prod.ext ?_ hnone, fun c hc => ?_⟩
    · show (woken.onBuffer a.buffer (·.install a.generation i)).1.view a.buffer = _
      rw [hinstall, hwoken, hnow]
    · show (woken.onBuffer a.buffer (·.install a.generation i)).1.view c = _
      rw [woken.view_onBuffer_ne hc, hwoken]

/-- Threads that wake touch buffers and timers only, and what is recorded of them. -/
theorem wakeAlarm_eq (s : Session) (reading i : Nat) :
    ∃ buffers alarms records,
      (s.wakeAlarm reading i).1 = { s with buffers, alarms, records } := by
  rw [wakeAlarm]
  split
  · exact ⟨s.buffers, s.alarms, s.records, rfl⟩
  · rename_i a _
    dsimp only
    split
    · obtain ⟨buffers, alarms, records, hsame⟩ := onBuffer_eq
        { s with alarms := s.alarms.set i { a with timer := a.timer.wake reading } } a.buffer
        (·.fire a.generation)
      exact ⟨buffers, alarms.modify i fun a => { a with timer := a.timer.leave }, records,
        by rw [hsame]⟩
    · exact ⟨s.buffers, _, s.records, rfl⟩
    · exact ⟨s.buffers, _, s.records, rfl⟩

theorem wakeAlarms_eq (s : Session) (reading : Nat) (order : List Nat) :
    ∃ buffers alarms records,
      (s.wakeAlarms reading order).1 = { s with buffers, alarms, records } := by
  induction order generalizing s with
  | nil => exact ⟨s.buffers, s.alarms, s.records, rfl⟩
  | cons i rest ih =>
    obtain ⟨buffers, alarms, records, hfirst⟩ := s.wakeAlarm_eq reading i
    obtain ⟨buffers', alarms', records', hrest⟩ := ih (s.wakeAlarm reading i).1
    refine ⟨buffers', alarms', records', Eq.trans hrest ?_⟩
    rw [hfirst]

theorem now_wakeAlarm (s : Session) (reading i : Nat) : (s.wakeAlarm reading i).1.now = s.now := by
  obtain ⟨buffers, alarms, records, hsame⟩ := s.wakeAlarm_eq reading i
  rw [hsame]

/-- A change that is over is seen no more. -/
theorem does_of_finish {s t : Session} {a : Arming} {rest : List Arming} (launch : Launch)
    {ended : List (Nat × Outcome)} (harmings : s.armings = a :: rest) (hnow : t.now = s.now)
    (hkept : t.armings = s.armings)
    (hhere : (t.view a.buffer, ended)
      = (s.view a.buffer).finish (a.generation, a.deadline.ahead s.now) launch)
    (helsewhere : ∀ c ≠ a.buffer, t.view c = s.view c) :
    s.Does a.buffer (.finishDeadline launch) { t with armings := t.armings.erase a } ended := by
  have hrest : t.armings.erase a = rest := by rw [hkept, harmings, List.erase_cons_head]
  rw [hrest]
  have hmine : s.armingsOf a.buffer = a :: rest.filter fun x => x.buffer == a.buffer := by
    rw [armingsOf, harmings]
    exact List.filter_cons_of_pos (beq_self_eq_true a.buffer)
  refine ⟨?_, fun c hc => ?_⟩
  · have hview : (s.view a.buffer).armings = (a.generation, a.deadline.ahead s.now)
        :: (rest.filter fun x => x.buffer == a.buffer).map
          fun x => (x.generation, x.deadline.ahead s.now) := by
      rw [view, hmine]
      rfl
    rw [View.act, hview]
    dsimp only
    rw [← hhere, ← hnow]
    rfl
  · have hother : s.armingsOf c = rest.filter fun x => x.buffer == c := by
      rw [armingsOf, harmings]
      exact List.filter_cons_of_neg (by simpa using hc.symm)
    have hsame : ({ t with armings := rest } : Session).view c
        = { t.view c with armings := (s.view c).armings } := by
      simp only [view, hother, hnow]
      rfl
    rw [hsame, helsewhere c hc]

/-- The second half of the innermost change. -/
theorem does_finishDeadline {s : Session} (h : s.Tended none) {a : Arming} {rest : List Arming}
    (harmings : s.armings = a :: rest) (launch : Launch) :
    s.Does a.buffer (.finishDeadline launch) (s.finishDeadline a launch).1
      (s.finishDeadline a launch).2.ended := by
  have hlaunch : ∀ k, (s.launch a (s.now + k)).1.now = s.now
      ∧ (s.launch a (s.now + k)).1.armings = s.armings := fun _ =>
    ⟨(now_onBuffer _ _ _).trans (now_wakeAlarm _ _ _),
      (armings_onBuffer _ _ _).trans (armings_wakeAlarm _ _ _)⟩
  cases launch with
  | prompt =>
    obtain ⟨hhere, helsewhere⟩ := view_launch h a 0
    obtain ⟨hnow, hkept⟩ := hlaunch 0
    exact does_of_finish .prompt harmings hnow hkept hhere helsewhere
  | overtaken =>
    obtain ⟨hhere, helsewhere⟩ := view_launch h a 1
    obtain ⟨hnow, hkept⟩ := hlaunch 1
    exact does_of_finish .overtaken harmings hnow hkept hhere helsewhere
  | refused =>
    have hhere := s.view_onBuffer_refuse a.buffer a.generation (a.deadline.ahead s.now)
    exact does_of_finish .refused harmings (s.now_onBuffer a.buffer _)
      (s.armings_onBuffer a.buffer _) hhere fun c hc => s.view_onBuffer_ne hc _

/-! ## New buffers -/

theorem does_create {s : Session} (harmings : ∀ a ∈ s.armings, a.buffer < s.buffers.length)
    (c : Config) : s.Does s.buffers.length (.create c) (s.create c).1 [] := by
  have hbuffers : (s.create c).1.buffers = s.buffers ++ [.ofConfig c] := rfl
  have hnew : (s.create c).1.buffers[s.buffers.length]? = some (.ofConfig c) := by
    rw [hbuffers, List.getElem?_append_right (Nat.le_refl _), Nat.sub_self]
    rfl
  have hnone : s.armingsOf s.buffers.length = [] := by
    refine List.filter_eq_nil_iff.mpr fun a ha => ?_
    have := harmings a ha
    simp only [beq_iff_eq]
    omega
  refine ⟨?_, fun b hb => ?_⟩
  · have hsame : (s.create c).1.armingsOf s.buffers.length = s.armingsOf s.buffers.length := rfl
    rw [View.act, view, armedOf?, timerOf?, hnew, hsame, hnone]
    rfl
  · have hsame : (s.create c).1.buffers[b]? = s.buffers[b]? := by
      rw [hbuffers, List.getElem?_append]
      split
      · rfl
      · rw [List.getElem?_singleton, if_neg (by omega), List.getElem?_eq_none (by omega)]
    exact view_congr rfl hsame (fun _ _ => rfl) rfl

end Session

end StreamBuffer
