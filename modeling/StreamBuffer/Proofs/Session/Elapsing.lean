/-
  StreamBuffer.Proofs.Session.Elapsing

  Time passing, as seen from each buffer.

  The timers' threads wake one after the other (`Session.wakeAlarms`), but a timer that goes
  off does so in its own buffer only, and no buffer has two of them. Hence what becomes of a
  buffer, and what is recorded of it, depends on whether its own timer is among those that wake
  and is due (`rings`), not on the order in which they do (`buffers_wakeAlarms`,
  `records_wakeAlarms`, `mem_ended_wakeAlarms`). So time makes
  of every view what it makes of it alone (`view_elapseIn`), and the calls that end are those
  that end in some view (`mem_ended_elapseIn`).
-/
import StreamBuffer.Proofs.Session.Viewing

namespace StreamBuffer

/-- The buffer after its timer has gone off. -/
def Buffer.rung (b : Buffer) : Buffer :=
  ({ b with state := { b.state with timer := none } } : Buffer).reachDeadline.1

theorem Buffer.fire_of_generation {b : Buffer} {g : UInt64} (h : b.state.generation = g) :
    (b.fire g).1 = b.rung := by
  rw [fire, if_pos h]
  rfl

/-- What the buffer records when its timer goes off. -/
def Buffer.ringEvents (b : Buffer) : List Event := (b.fire b.state.generation).2.events

theorem Buffer.events_fire_of_generation {b : Buffer} {g : UInt64} (h : b.state.generation = g) :
    (b.fire g).2.events = b.ringEvents := by
  rw [ringEvents, h]

/-- The callback of the timer that the buffer has gives it up. -/
theorem Buffer.released_fire {b : Buffer} {g : UInt64} {i : Nat} (htimer : b.state.timer = some i)
    (h : b.state.generation = g) : (b.fire g).2.released = [i] := by
  rcases b.released_act_cases (a := .fire g) rfl with ⟨-, hkept, -⟩ | ⟨hgiven, -⟩
  · have hnone := (b.fields_act (.fire g)).2.2.1
    simp only [change, if_pos h] at hnone
    rw [hnone, htimer] at hkept
    cases hkept
  · rw [htimer] at hgiven
    exact hgiven

/-- A thread that is in no callback has none to return from. -/
theorem Timer.leave_of_not_calling {x : Timer} (h : x.thread ≠ .calling) : x.leave = x := by
  rw [leave]
  split
  · rename_i hcalling
    exact absurd hcalling h
  · rfl
  · rfl

namespace Session

/-- Time passes, and the timers' threads wake in the given order. -/
def elapseIn (s : Session) (order : List Nat) : Session × Effects :=
  { s with now := s.now + 1 }.wakeAlarms (s.now + 1) order

/-- The buffer's timer is one of those that wake, and its deadline has come by the reading of
    the clock. -/
def rings (s : Session) (reading : Nat) (order : List Nat) (b : Nat) : Bool :=
  (s.timerOf? b).any fun i =>
    order.contains i && (s.deadlineOf? i).any (Instant.hasCome reading)

/-- What is recorded of a buffer, if it is there, when its timer goes off. -/
def ringEvents (s : Session) (b : Nat) : List Event :=
  (s.buffers[b]?.map Buffer.ringEvents).getD []

/-! ## One thread wakes -/

variable {s : Session}

theorem rings_cons (reading i : Nat) (rest : List Nat) (b : Nat) :
    s.rings reading (i :: rest) b = (s.rings reading [i] b || s.rings reading rest b) := by
  simp only [rings]
  cases s.timerOf? b with
  | none => rfl
  | some j => simp only [Option.any_some, List.contains_cons, List.contains_nil, Bool.or_false,
      Bool.and_or_distrib_right]

theorem rings_singleton_iff {reading i b : Nat} :
    s.rings reading [i] b = true
      ↔ s.timerOf? b = some i ∧ (s.deadlineOf? i).any (Instant.hasCome reading) = true := by
  simp only [rings]
  cases s.timerOf? b with
  | none => simp
  | some j =>
    simp only [Option.any_some, List.contains_cons, List.contains_nil, Bool.or_false,
      Bool.and_eq_true, beq_iff_eq, Option.some.injEq]
    constructor
    · rintro ⟨rfl, hcome⟩
      exact ⟨rfl, hcome⟩
    · rintro ⟨rfl, hcome⟩
      exact ⟨rfl, hcome⟩

theorem deadlineOf?_wakeAlarm (s : Session) (reading i : Nat) :
    (s.wakeAlarm reading i).1.deadlineOf? = s.deadlineOf? := by
  have hwoken : (s.onTimer i (·.wake reading)).deadlineOf? = s.deadlineOf? :=
    s.deadlineOf?_onTimer i fun x => x.deadline_wake reading
  cases ha : s.alarms[i]? with
  | none => rw [wakeAlarm, ha]
  | some a =>
    rw [wakeAlarm, ha]
    dsimp only
    rw [set_eq_onTimer ha (·.wake reading)]
    split
    · exact (deadlineOf?_onTimer _ i Timer.deadline_leave).trans
        ((deadlineOf?_onBuffer _ _ _).trans hwoken)
    · exact hwoken
    · exact hwoken

/-- A timer that goes off does so in its own buffer, and is recorded there; a timer that does
    not changes no buffer. -/
theorem wakeAlarm_rings (h : s.Tended none) (reading i : Nat) :
    (∃ b buffer, s.buffers[b]? = some buffer ∧ s.rings reading [i] b = true
        ∧ (∀ c, s.rings reading [i] c = true → c = b)
        ∧ (s.wakeAlarm reading i).1.buffers = s.buffers.set b buffer.rung
        ∧ (s.wakeAlarm reading i).1.records = s.records.modify b (· ++ buffer.ringEvents)
        ∧ (s.wakeAlarm reading i).2.ended = (s.view b).ring.2)
      ∨ ((∀ b, s.rings reading [i] b = false)
        ∧ (s.wakeAlarm reading i).1.buffers = s.buffers
        ∧ (s.wakeAlarm reading i).1.records = s.records
        ∧ (s.wakeAlarm reading i).2.ended = []) := by
  -- an installed timer is one that was started, for the buffer that has it
  have hinstalled : ∀ b, s.timerOf? b = some i →
      ∃ a, s.alarms[i]? = some a ∧ a.buffer = b ∧ a.timer.cell = .pending := by
    intro b htimer
    obtain ⟨buffer, hb, htimer⟩ := Option.bind_eq_some_iff.mp htimer
    exact h.installed hb htimer (by simp)
  cases ha : s.alarms[i]? with
  | none =>
    refine Or.inr ⟨fun b => Bool.eq_false_iff.mpr fun hrings => ?_, ?_⟩
    · obtain ⟨a, ha', -⟩ := hinstalled b (rings_singleton_iff.mp hrings).1
      cases ha.symm.trans ha'
    · rw [wakeAlarm, ha]
      exact ⟨rfl, rfl, rfl⟩
  | some a =>
    have hdeadline : s.deadlineOf? i = some a.timer.deadline := by
      rw [deadlineOf?, ha]
      rfl
    rcases wakeAlarm_cases ha (h.idle ha (by simp)) reading
      with ⟨-, hcell, hcome, hwake⟩ | ⟨hnot, -, -, -, hwake⟩
    · obtain ⟨-, buffer, hb, htimer, hgeneration⟩ := h.pending ha (by simp) hcell
      have htimerOf : s.timerOf? a.buffer = some i := by
        rw [timerOf?, hb]
        exact htimer
      refine Or.inl ⟨a.buffer, buffer, hb, ?_, fun c hc => ?_, ?_, ?_, ?_⟩
      · rw [rings_singleton_iff, hdeadline]
        exact ⟨htimerOf, hcome⟩
      · obtain ⟨a', ha', hbuffer, -⟩ := hinstalled c (rings_singleton_iff.mp hc).1
        obtain rfl := Option.some.inj (ha.symm.trans ha')
        exact hbuffer.symm
      · have hbuffers := buffers_onBuffer (s := s.onTimer i (·.wake reading)) hb
          (·.fire a.generation)
        rw [Buffer.fire_of_generation hgeneration] at hbuffers
        rw [hwake]
        exact hbuffers
      · have hrecords := records_onBuffer (s := s.onTimer i (·.wake reading)) hb
          (·.fire a.generation)
        rw [Buffer.events_fire_of_generation hgeneration] at hrecords
        rw [hwake]
        exact hrecords
      · have hview := (s.onTimer i (·.wake reading)).view_onBuffer_fire a.buffer a.generation
        rw [view_onTimer s i a.buffer fun x => x.deadline_wake reading, View.fire,
          if_pos ((isCurrent_view hb _).mpr hgeneration)] at hview
        rw [hwake]
        exact congrArg Prod.snd hview
    · refine Or.inr ⟨fun b => Bool.eq_false_iff.mpr fun hrings => ?_, ?_⟩
      · obtain ⟨htimer, hcome⟩ := rings_singleton_iff.mp hrings
        obtain ⟨a', ha', -, hcell⟩ := hinstalled b htimer
        obtain rfl := Option.some.inj (ha.symm.trans ha')
        rw [hdeadline, Option.any_some,
          hnot (h.pending ha (by simp) hcell).1 hcell] at hcome
        cases hcome
      · rw [hwake]
        exact ⟨rfl, rfl, rfl⟩

theorem buffers_wakeAlarm (h : s.Tended none) (reading i b : Nat) :
    (s.wakeAlarm reading i).1.buffers[b]?
      = if s.rings reading [i] b then s.buffers[b]?.map Buffer.rung else s.buffers[b]? := by
  rcases wakeAlarm_rings h reading i with ⟨c, buffer, hc, hrings, honly, hbuffers, -, -⟩
    | ⟨hnone, hbuffers, -, -⟩
  · rw [hbuffers]
    by_cases hb : c = b
    · subst hb
      rw [if_pos hrings, hc, List.getElem?_set_self (List.getElem?_eq_some_iff.mp hc).1]
      rfl
    · have hnot : ¬ s.rings reading [i] b = true := fun hb' => hb (honly b hb').symm
      rw [if_neg hnot, List.getElem?_set_ne hb]
  · rw [hbuffers, hnone b, if_neg Bool.false_ne_true]

theorem records_wakeAlarm (h : s.Tended none) (reading i b : Nat) :
    (s.wakeAlarm reading i).1.records[b]?
      = s.records[b]?.map (· ++ if s.rings reading [i] b then s.ringEvents b else []) := by
  rcases wakeAlarm_rings h reading i with ⟨c, buffer, hc, hrings, honly, -, hrecords, -⟩
    | ⟨hnone, -, hrecords, -⟩
  · rw [hrecords, List.getElem?_modify]
    by_cases hb : c = b
    · subst hb
      simp [hrings, ringEvents, hc]
    · -- the timer that went off is another buffer's
      have hnot : ¬ s.rings reading [i] b = true := fun hb' => hb (honly b hb').symm
      simp [hnot, hb]
  · rw [hrecords, hnone b]
    simp

theorem mem_ended_wakeAlarm (h : s.Tended none) (reading i : Nat) (k : Nat) (o : Outcome) :
    (k, o) ∈ (s.wakeAlarm reading i).2.ended
      ↔ ∃ b, s.rings reading [i] b = true ∧ (k, o) ∈ (s.view b).ring.2 := by
  rcases wakeAlarm_rings h reading i with ⟨c, buffer, hc, hrings, honly, -, -, hended⟩
    | ⟨hnone, -, -, hended⟩
  · rw [hended]
    constructor
    · exact fun hmem => ⟨c, hrings, hmem⟩
    · rintro ⟨b, hb, hmem⟩
      obtain rfl := honly b hb
      exact hmem
  · rw [hended]
    simp [hnone]

/-! ## The threads wake one after the other -/

/-- A buffer whose timer has gone off has none, and one whose timer has not is as it was. -/
theorem rings_wakeAlarm (h : s.Tended none) (reading i : Nat) (rest : List Nat) (b : Nat) :
    (s.wakeAlarm reading i).1.rings reading rest b
      = (!s.rings reading [i] b && s.rings reading rest b) := by
  have hbuffer := buffers_wakeAlarm h reading i b
  cases hrings : s.rings reading [i] b with
  | true =>
    rw [hrings, if_pos rfl] at hbuffer
    have htimer : (s.wakeAlarm reading i).1.timerOf? b = none := by
      rw [timerOf?, hbuffer]
      cases s.buffers[b]? with
      | none => rfl
      | some x => exact (Buffer.state_reachDeadline _).2.1
    rw [rings, htimer]
    rfl
  | false =>
    rw [hrings, if_neg Bool.false_ne_true] at hbuffer
    simp only [rings, timerOf?, hbuffer, deadlineOf?_wakeAlarm, Bool.not_false, Bool.true_and]

theorem view_wakeAlarm_of_not_rings (h : s.Tended none) {reading i b : Nat}
    (hnot : s.rings reading [i] b = false) : (s.wakeAlarm reading i).1.view b = s.view b := by
  have hbuffer := buffers_wakeAlarm h reading i b
  rw [hnot, if_neg Bool.false_ne_true] at hbuffer
  have harmings : (s.wakeAlarm reading i).1.armingsOf b = s.armingsOf b := by
    rw [armingsOf, armings_wakeAlarm, armingsOf]
  exact view_congr (s.now_wakeAlarm reading i) hbuffer
    (fun j _ => congrFun (s.deadlineOf?_wakeAlarm reading i) j) harmings

/-- What becomes of a buffer does not depend on the order in which the threads wake. -/
theorem buffers_wakeAlarms (h : s.Tended none) (reading : Nat) (order : List Nat) (b : Nat) :
    (s.wakeAlarms reading order).1.buffers[b]?
      = if s.rings reading order b then s.buffers[b]?.map Buffer.rung else s.buffers[b]? := by
  induction order generalizing s with
  | nil =>
    have hnot : s.rings reading [] b = false := by
      cases htimer : s.timerOf? b <;> simp [rings, htimer]
    rw [hnot, if_neg Bool.false_ne_true]
    rfl
  | cons i rest ih =>
    have hfirst := buffers_wakeAlarm h reading i b
    have hrest := ih (h.wakeAlarm reading i)
    rw [rings_wakeAlarm h, hfirst] at hrest
    rw [rings_cons]
    refine Eq.trans hrest ?_
    cases s.rings reading [i] b <;> simp

/-- Nor does what is recorded of it. -/
theorem records_wakeAlarms (h : s.Tended none) (reading : Nat) (order : List Nat) (b : Nat) :
    (s.wakeAlarms reading order).1.records[b]?
      = s.records[b]?.map (· ++ if s.rings reading order b then s.ringEvents b else []) := by
  induction order generalizing s with
  | nil =>
    have hnot : s.rings reading [] b = false := by
      cases htimer : s.timerOf? b <;> simp [rings, htimer]
    rw [hnot]
    simp [wakeAlarms]
  | cons i rest ih =>
    have hbuffer := buffers_wakeAlarm h reading i b
    have hrest := ih (h.wakeAlarm reading i)
    rw [rings_wakeAlarm h, records_wakeAlarm h, Option.map_map] at hrest
    rw [rings_cons]
    refine Eq.trans hrest ?_
    -- the timer goes off once: either it does with this thread, or the buffer is as it was
    cases hrings : s.rings reading [i] b with
    | true => simp [Function.comp_def]
    | false =>
      rw [hrings, if_neg Bool.false_ne_true] at hbuffer
      simp [Function.comp_def, ringEvents, hbuffer]

/-- Nor do the calls that end, taken together. -/
theorem mem_ended_wakeAlarms (h : s.Tended none) (reading : Nat) (order : List Nat) (k : Nat)
    (o : Outcome) :
    (k, o) ∈ (s.wakeAlarms reading order).2.ended
      ↔ ∃ b, s.rings reading order b = true ∧ (k, o) ∈ (s.view b).ring.2 := by
  induction order generalizing s with
  | nil =>
    have hnot : ∀ b, s.rings reading [] b = false := by
      intro b
      cases htimer : s.timerOf? b <;> simp [rings, htimer]
    simp only [hnot, Bool.false_eq_true, false_and, exists_false, iff_false]
    exact List.not_mem_nil
  | cons i rest ih =>
    have hended : (s.wakeAlarms reading (i :: rest)).2.ended
        = (s.wakeAlarm reading i).2.ended
          ++ ((s.wakeAlarm reading i).1.wakeAlarms reading rest).2.ended := rfl
    rw [hended, List.mem_append, mem_ended_wakeAlarm h, ih (h.wakeAlarm reading i)]
    constructor
    · rintro (⟨b, hrings, hmem⟩ | ⟨b, hrings, hmem⟩)
      · exact ⟨b, by rw [rings_cons, hrings, Bool.true_or], hmem⟩
      · rw [rings_wakeAlarm h, Bool.and_eq_true, Bool.not_eq_true'] at hrings
        rw [view_wakeAlarm_of_not_rings h hrings.1] at hmem
        exact ⟨b, by rw [rings_cons, hrings.2, Bool.or_true], hmem⟩
    · rintro ⟨b, hrings, hmem⟩
      rw [rings_cons, Bool.or_eq_true] at hrings
      cases hfirst : s.rings reading [i] b with
      | true => exact Or.inl ⟨b, hfirst, hmem⟩
      | false =>
        have hlater : s.rings reading rest b = true :=
          hrings.resolve_left (by rw [hfirst]; exact Bool.false_ne_true)
        refine Or.inr ⟨b, ?_, ?_⟩
        · rw [rings_wakeAlarm h, hfirst, hlater]
          rfl
        · rw [view_wakeAlarm_of_not_rings h hfirst]
          exact hmem

theorem now_wakeAlarms (s : Session) (reading : Nat) (order : List Nat) :
    (s.wakeAlarms reading order).1.now = s.now := by
  obtain ⟨buffers, alarms, records, hsame⟩ := s.wakeAlarms_eq reading order
  rw [hsame]

theorem deadlineOf?_wakeAlarms (s : Session) (reading : Nat) (order : List Nat) :
    (s.wakeAlarms reading order).1.deadlineOf? = s.deadlineOf? := by
  induction order generalizing s with
  | nil => rfl
  | cons i rest ih => exact (ih (s.wakeAlarm reading i).1).trans (s.deadlineOf?_wakeAlarm reading i)

theorem view_wakeAlarms (h : s.Tended none) (reading : Nat) (order : List Nat) (b : Nat) :
    (s.wakeAlarms reading order).1.view b
      = if s.rings reading order b then (s.view b).ring.1 else s.view b := by
  have hbuffer := buffers_wakeAlarms h reading order b
  have hnow := s.now_wakeAlarms reading order
  have hdeadline := s.deadlineOf?_wakeAlarms reading order
  have harmings : (s.wakeAlarms reading order).1.armingsOf b = s.armingsOf b := by
    rw [armingsOf, armings_wakeAlarms, armingsOf]
  cases hrings : s.rings reading order b with
  | false =>
    rw [hrings, if_neg Bool.false_ne_true] at hbuffer
    exact view_congr hnow hbuffer (fun i _ => congrFun hdeadline i) harmings
  | true =>
    rw [hrings, if_pos rfl] at hbuffer
    rw [if_pos rfl]
    cases hb : s.buffers[b]? with
    | none =>
      rw [rings, timerOf?, hb] at hrings
      cases hrings
    | some buffer =>
      rw [hb, Option.map_some] at hbuffer
      let silent : Buffer := { buffer with state := { buffer.state with timer := none } }
      have htimer : buffer.rung.state.timer = none := silent.state_reachDeadline.2.1
      have huntimed : buffer.rung.untimed = buffer.untimed.reachDeadline.1 :=
        (Buffer.blind_reachDeadline silent).1
      have hview := armed_view hbuffer
      rw [htimer, Option.bind_none, Option.map_none] at hview
      have hin : (s.view b).disarm.buffer = some buffer.untimed := buffer_view hb
      have hsame : (s.wakeAlarms reading order).1.view b
          = { s.view b with buffer := some buffer.rung.untimed, armed := none } := by
        rw [← hview, ← buffer_view hbuffer]
        simp only [view, hnow, harmings]
      rw [hsame, huntimed, View.ring, View.on, hin]
      rfl

/-! ## Time passes -/

/-- Deadlines come nearer. -/
theorem view_tick (s : Session) (b : Nat) :
    ({ s with now := s.now + 1 } : Session).view b = (s.view b).age := by
  have hahead : Instant.ahead (s.now + 1) = Instant.ahead 1 ∘ Instant.ahead s.now :=
    funext fun i => (i.ahead_ahead s.now 1).symm
  simp only [view, View.age, Option.map_map, List.map_map]
  rw [← hahead]
  refine congrArg (View.mk _ _) (List.map_congr_left fun a _ => ?_)
  exact congrArg (Prod.mk a.generation) (a.deadline.ahead_ahead s.now 1).symm

/-- A timer goes off with the tick at which its deadline comes. -/
theorem rings_tick (s : Session) {order : List Nat}
    (horder : order.Perm (List.range s.alarms.length)) (b : Nat) :
    ({ s with now := s.now + 1 } : Session).rings (s.now + 1) order b
      = (s.view b).armed.any (Instant.hasCome 1) := by
  have hsame : ∀ i, ({ s with now := s.now + 1 } : Session).deadlineOf? i = s.deadlineOf? i :=
    fun _ => rfl
  have htimer : ({ s with now := s.now + 1 } : Session).timerOf? b = s.timerOf? b := rfl
  rw [rings, htimer, view, armedOf?]
  cases s.timerOf? b with
  | none => rfl
  | some i =>
    simp only [Option.any_some, Option.bind_some, hsame]
    cases hi : s.deadlineOf? i with
    | none => simp
    | some d =>
      have halarm : i < s.alarms.length := by
        rw [deadlineOf?, Option.map_eq_some_iff] at hi
        obtain ⟨a, ha, -⟩ := hi
        exact (List.getElem?_eq_some_iff.mp ha).1
      have hmem : order.contains i = true := by
        rw [List.contains_iff_mem, horder.mem_iff, List.mem_range]
        exact halarm
      rw [hmem, Option.any_some, Option.map_some, Option.any_some, Instant.hasCome_ahead]
      rfl

/-- Whatever the order in which the threads wake, time makes of every view what it makes of
    it alone. -/
theorem view_elapseIn (h : s.Tended none) {order : List Nat}
    (horder : order.Perm (List.range s.alarms.length)) (b : Nat) :
    (s.elapseIn order).1.view b = (s.view b).elapse.1 := by
  have htick : ({ s with now := s.now + 1 } : Session).Tended none := h.of_eq rfl rfl
  rw [elapseIn, view_wakeAlarms htick, rings_tick s horder, view_tick, View.elapse]
  split <;> rfl

theorem mem_ended_elapseIn (h : s.Tended none) {order : List Nat}
    (horder : order.Perm (List.range s.alarms.length)) (k : Nat) (o : Outcome) :
    (k, o) ∈ (s.elapseIn order).2.ended ↔ ∃ b, (k, o) ∈ (s.view b).elapse.2 := by
  have htick : ({ s with now := s.now + 1 } : Session).Tended none := h.of_eq rfl rfl
  rw [elapseIn, mem_ended_wakeAlarms htick]
  refine exists_congr fun b => ?_
  rw [rings_tick s horder, view_tick, View.elapse]
  cases (s.view b).armed.any (Instant.hasCome 1) <;> simp

/-! ## The whole session -/

/-- A thread that wakes touches no other timer: the callback gives up its own. -/
theorem alarms_wakeAlarm (h : s.Tended none) (reading i j : Nat) :
    (s.wakeAlarm reading i).1.alarms[j]? = s.alarms[j]?.map fun a =>
      if i = j then { a with timer := (a.timer.wake reading).leave } else a := by
  cases ha : s.alarms[i]? with
  | none =>
    rw [wakeAlarm, ha]
    cases hj : s.alarms[j]? with
    | none => rfl
    | some a =>
      have hij : i ≠ j := by
        rintro rfl
        cases ha.symm.trans hj
      simp [hij]
  | some a =>
    rcases wakeAlarm_cases ha (h.idle ha (by simp)) reading
      with ⟨hthread, hcell, hcome, hwake⟩ | ⟨-, -, -, hout, hwake⟩
    · obtain ⟨-, buffer, hb, htimer, hgeneration⟩ := h.pending ha (by simp) hcell
      rw [hwake]
      dsimp only
      rw [getElem?_onTimer, getElem?_alarms_onBuffer (s := s.onTimer i (·.wake reading)) hb,
        Buffer.released_fire htimer hgeneration, getElem?_onTimer, Option.map_map, Option.map_map]
      cases hj : s.alarms[j]? with
      | none => rfl
      | some x =>
        by_cases hij : i = j
        · subst hij
          obtain rfl := Option.some.inj (ha.symm.trans hj)
          simp [Timer.wake_of_hasCome hthread hcell hcome, Timer.stop]
        · simp [hij, Ne.symm hij]
    · rw [hwake, getElem?_onTimer]
      cases hj : s.alarms[j]? with
      | none => rfl
      | some x =>
        by_cases hij : i = j
        · subst hij
          obtain rfl := Option.some.inj (ha.symm.trans hj)
          simp [Timer.leave_of_not_calling hout]
        · simp [hij]

theorem alarms_wakeAlarms (h : s.Tended none) (reading : Nat) {order : List Nat}
    (hnodup : order.Nodup) (j : Nat) :
    (s.wakeAlarms reading order).1.alarms[j]? = s.alarms[j]?.map fun a =>
      if j ∈ order then { a with timer := (a.timer.wake reading).leave } else a := by
  induction order generalizing s with
  | nil => simp [wakeAlarms]
  | cons i rest ih =>
    obtain ⟨hnew, hrest⟩ := List.nodup_cons.mp hnodup
    have hlater := ih (h.wakeAlarm reading i) hrest
    rw [alarms_wakeAlarm h, Option.map_map] at hlater
    refine Eq.trans hlater ?_
    congr 1
    funext a
    by_cases hij : i = j
    · subst hij
      simp [hnew]
    · simp [hij, Ne.symm hij]

/-- In whatever order the threads wake, the session comes out the same. -/
theorem elapseIn_eq (h : s.Tended none) {order : List Nat}
    (horder : order.Perm (List.range s.alarms.length)) : (s.elapseIn order).1 = s.elapse.1 := by
  have htick : ({ s with now := s.now + 1 } : Session).Tended none := h.of_eq rfl rfl
  have hrange : (List.range s.alarms.length).Nodup := List.nodup_range
  have hbuffers : (s.elapseIn order).1.buffers = s.elapse.1.buffers := by
    refine List.ext_getElem? fun b => ?_
    rw [elapseIn, elapse, buffers_wakeAlarms htick, buffers_wakeAlarms htick,
      rings_tick s horder, rings_tick s (List.Perm.refl _)]
  have hrecords : (s.elapseIn order).1.records = s.elapse.1.records := by
    refine List.ext_getElem? fun b => ?_
    rw [elapseIn, elapse, records_wakeAlarms htick, records_wakeAlarms htick,
      rings_tick s horder, rings_tick s (List.Perm.refl _)]
  have halarms : (s.elapseIn order).1.alarms = s.elapse.1.alarms := by
    refine List.ext_getElem? fun j => ?_
    rw [elapseIn, elapse, alarms_wakeAlarms htick _ (horder.nodup_iff.mpr hrange),
      alarms_wakeAlarms htick _ hrange]
    simp only [horder.mem_iff]
  obtain ⟨buffers, alarms, records, hsame⟩ :=
    wakeAlarms_eq { s with now := s.now + 1 } (s.now + 1) order
  obtain ⟨buffers', alarms', records', hsame'⟩ :=
    wakeAlarms_eq { s with now := s.now + 1 } (s.now + 1) (List.range s.alarms.length)
  rw [elapseIn, hsame, elapse, hsame'] at hbuffers hrecords halarms ⊢
  -- clock, handles, changes in flight and the number of calls are those of the start
  obtain rfl : buffers = buffers' := hbuffers
  obtain rfl : records = records' := hrecords
  obtain rfl : alarms = alarms' := halarms
  rfl

end Session

end StreamBuffer
