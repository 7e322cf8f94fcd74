/-
  StreamBuffer.Proofs.Session.Tending

  Between the operations of a session no timer is left to itself: a timer that may still go
  off is installed in the buffer that it was started for, of which it has the generation, and
  an installed timer may still go off (`Tended`).

  While a timer's thread starts or runs its callback, this holds of all timers but that one;
  so the invariant names a timer that may be loose. An action on a buffer keeps it
  (`Tended.onBuffer`), a timer is tied again once it is over or installed (`Tended.tie`), and
  every transition of a session starts and ends with no timer loose. Generations may wrap
  around as often as they like.
-/
import StreamBuffer.Proofs.Session.Alarms
import StreamBuffer.Proofs.Session.Turn

namespace StreamBuffer

/-! ## What an action gives up -/

namespace Buffer

/-- Readers give up no timer. -/
theorem append_released_wakeAll (b : Buffer) (released : List Nat) :
    released ++ b.wakeAll.2.released = released := by
  rw [(wakeAll_served b).released_eq_nil, List.append_nil]

/-- An action that takes no timer gives up the buffer's timer, or leaves it and the
    generation alone and gives up none. -/
theorem released_act_cases (b : Buffer) {a : Action} (ha : a.takes = false) :
    ((b.act a).2.released = [] ∧ (b.act a).1.state.timer = b.state.timer
        ∧ (b.act a).1.state.generation = b.state.generation)
      ∨ ((b.act a).2.released = b.state.timer.toList ∧ (b.act a).1.state.timer = none) := by
  obtain ⟨-, -, htimer, hgeneration⟩ := b.fields_act a
  rw [htimer, hgeneration]
  cases a with
  | write chunk => exact Or.inl ⟨b.released_write chunk, rfl, rfl⟩
  | read i call => exact Or.inl ⟨(read_served b { id := i, call }).released_eq_nil, rfl, rfl⟩
  | close => exact Or.inr ⟨append_released_wakeAll
      { b with state := { b.state.nextGeneration with closed := true } } b.state.timer.toList, rfl⟩
  | startDeadline now deadline =>
    exact Or.inr ⟨append_released_wakeAll
      { b with
        state := { b.state.nextGeneration with
          deadlineReached := deadline.any (Instant.hasCome now) } } b.state.timer.toList, rfl⟩
  | install generation timer => cases ha
  | startRefused generation =>
    refine Or.inl ?_
    by_cases hcurrent : b.state.generation = generation
    · simp only [act, startRefused, change, if_pos hcurrent]
      exact ⟨append_released_wakeAll
        { b with state := { b.state with deadlineReached := true } } [], trivial, trivial⟩
    · simp only [act, startRefused, change, if_neg hcurrent]
      exact ⟨trivial, trivial, trivial⟩
  | fire generation =>
    by_cases hcurrent : b.state.generation = generation
    · refine Or.inr ?_
      simp only [act, fire, change, if_pos hcurrent]
      exact ⟨append_released_wakeAll
        { b with state := { b.state with timer := none, deadlineReached := true } }
        b.state.timer.toList, trivial⟩
    · refine Or.inl ?_
      simp only [act, fire, change, if_neg hcurrent]
      exact ⟨trivial, trivial, trivial⟩
  | abandon => exact Or.inr ⟨rfl, rfl⟩

end Buffer

/-- A thread that is not in the callback enters it only at the deadline. -/
theorem Timer.thread_wake_ne {x : Timer} {now : Nat} (hidle : x.thread ≠ .calling)
    (hnot : x.thread = .waiting → x.cell = .pending → x.deadline.hasCome now = false) :
    (x.wake now).thread ≠ .calling := by
  obtain ⟨deadline, cell, thread, runs⟩ := x
  cases thread with
  | calling => exact absurd rfl hidle
  | finished => simp [wake]
  | waiting =>
    cases cell with
    | pending => simp [wake, show deadline.hasCome now = false from hnot rfl rfl]
    | stopped => simp [wake]
    | fired => simp [wake]

/-- No thread is in the callback that has left it. -/
theorem Timer.thread_leave_ne (x : Timer) : x.leave.thread ≠ .calling := by
  obtain ⟨deadline, cell, thread, runs⟩ := x
  cases thread <;> simp [leave]

namespace Session

/-! ## Stopping by number -/

/-- A timer is stopped if its number is among those given. -/
theorem getElem?_stopAlarms (s : Session) (ids : List Nat) (j : Nat) :
    (s.stopAlarms ids).alarms[j]?
      = s.alarms[j]?.map fun a => if j ∈ ids then { a with timer := a.timer.stop.2 } else a := by
  induction ids generalizing s with
  | nil => simp [stopAlarms]
  | cons i rest ih =>
    have hrest := ih (s.stopAlarm i)
    have hfirst := getElem?_onTimer s i j fun t => t.stop.2
    show ((s.stopAlarm i).stopAlarms rest).alarms[j]? = _
    rw [hrest]
    show Option.map _ (s.onTimer i fun t => t.stop.2).alarms[j]? = _
    rw [hfirst, Option.map_map]
    congr 1
    funext a
    -- to stop it once more changes nothing
    have hstop : a.timer.stop.2.stop.2 = a.timer.stop.2 := by
      rcases a.timer.stop_cases with ⟨-, hstop⟩ | ⟨hover, hstop⟩
      · rw [hstop]
        rfl
      · rw [hstop, hstop]
    simp only [Function.comp_apply, List.mem_cons, eq_comm (a := j)]
    by_cases hij : i = j <;> by_cases hmem : j ∈ rest <;> simp [hij, hmem, hstop]

theorem getElem?_alarms_onBuffer {s : Session} {b : Nat} {buffer : Buffer}
    (h : s.buffers[b]? = some buffer) (f : Buffer → Buffer × Effects) (j : Nat) :
    (s.onBuffer b f).1.alarms[j]? = s.alarms[j]?.map fun a =>
      if j ∈ (f buffer).2.released then { a with timer := a.timer.stop.2 } else a := by
  rw [onBuffer_of_getElem? h, getElem?_stopAlarms]
  rfl

/-! ## Tended timers -/

/-- Every timer that may still go off, but for the one that is loose, is installed in its
    buffer and of its generation, and no other is installed. -/
structure Tended (s : Session) (loose : Option Nat) : Prop where
  idle : ∀ {i : Nat} {a : Alarm}, s.alarms[i]? = some a → loose ≠ some i →
    a.timer.thread ≠ .calling
  pending : ∀ {i : Nat} {a : Alarm}, s.alarms[i]? = some a → loose ≠ some i →
    a.timer.cell = .pending → a.timer.thread = .waiting
      ∧ ∃ buffer, s.buffers[a.buffer]? = some buffer ∧ buffer.state.timer = some i
        ∧ buffer.state.generation = a.generation
  installed : ∀ {b i : Nat} {buffer : Buffer}, s.buffers[b]? = some buffer →
    buffer.state.timer = some i → loose ≠ some i →
    ∃ a, s.alarms[i]? = some a ∧ a.buffer = b ∧ a.timer.cell = .pending

/-- No buffer has the timer installed. -/
def Uninstalled (s : Session) (i : Nat) : Prop :=
  ∀ {b : Nat} {buffer : Buffer}, s.buffers[b]? = some buffer → buffer.state.timer ≠ some i

namespace Tended

variable {s t : Session} {loose : Option Nat}

/-- Only timers and buffers count. -/
theorem of_eq (h : s.Tended loose) (hbuffers : t.buffers = s.buffers)
    (halarms : t.alarms = s.alarms) : t.Tended loose := by
  obtain ⟨idle, pending, installed⟩ := h
  refine ⟨?_, ?_, ?_⟩
  · rw [halarms]
    exact idle
  · rw [halarms, hbuffers]
    exact pending
  · rw [halarms, hbuffers]
    exact installed

/-- Any one timer may be let loose. -/
theorem loosen (h : s.Tended none) (i : Nat) : s.Tended (some i) where
  idle ha _ := h.idle ha (by simp)
  pending ha _ := h.pending ha (by simp)
  installed hb htimer _ := h.installed hb htimer (by simp)

/-- A loose timer is tied once it is at rest, and is installed if it may still go off. -/
theorem tie {i : Nat} (h : s.Tended (some i))
    (hover : ∀ a, s.alarms[i]? = some a → a.timer.thread ≠ .calling ∧ a.timer.cell ≠ .pending)
    (hfree : s.Uninstalled i) : s.Tended none where
  idle {j a} ha _ := by
    by_cases hij : i = j
    · exact (hover a (hij ▸ ha)).1
    · exact h.idle ha (by simpa using hij)
  pending {j a} ha _ hcell := by
    by_cases hij : i = j
    · exact absurd hcell (hover a (hij ▸ ha)).2
    · exact h.pending ha (by simpa using hij) hcell
  installed {b j buffer} hb htimer _ := by
    by_cases hij : i = j
    · exact absurd (hij ▸ htimer) (hfree hb)
    · exact h.installed hb htimer (by simpa using hij)

/-- What happens to a loose timer does not matter. -/
theorem onTimer {i : Nat} (h : s.Tended (some i)) (g : Timer → Timer) :
    (s.onTimer i g).Tended (some i) := by
  have hother : ∀ {j}, some i ≠ some j → (s.onTimer i g).alarms[j]? = s.alarms[j]? := by
    intro j hj
    have hij : i ≠ j := fun hij => hj (congrArg some hij)
    rw [getElem?_onTimer]
    simp [hij]
  refine ⟨fun ha hj => ?_, fun ha hj => ?_, fun hb htimer hj => ?_⟩
  · rw [hother hj] at ha
    exact h.idle ha hj
  · rw [hother hj] at ha
    exact h.pending ha hj
  · rw [hother hj]
    exact h.installed hb htimer hj

/-- An action that takes no timer stops the one that it gives up. -/
theorem act (h : s.Tended loose) (b : Nat) {a : Buffer.Action} (ha : a.takes = false) :
    (s.onBuffer b fun x => x.act a).1.Tended loose := by
  cases hb : s.buffers[b]? with
  | none =>
    rw [onBuffer_of_none hb]
    exact h
  | some buffer =>
    have hcases := buffer.released_act_cases ha
    -- a timer that the action gives up was this buffer's
    have hown : ∀ {i}, i ∈ (buffer.act a).2.released → buffer.state.timer = some i := by
      intro i hi
      rcases hcases with ⟨hnone, -⟩ | ⟨hold, -⟩
      · rw [hnone] at hi
        cases hi
      · rw [hold] at hi
        exact Option.mem_toList.mp hi
    refine ⟨fun {i x} hx hi => ?_, fun {i x} hx hi hcell => ?_, fun {c i y} hy htimer hi => ?_⟩
    · rw [getElem?_alarms_onBuffer hb, Option.map_eq_some_iff] at hx
      obtain ⟨x, hx, rfl⟩ := hx
      have hidle := h.idle hx hi
      split
      · exact x.timer.thread_stop.trans_ne hidle
      · exact hidle
    · rw [getElem?_alarms_onBuffer hb, Option.map_eq_some_iff] at hx
      obtain ⟨x, hx, rfl⟩ := hx
      split at hcell
      · exact absurd hcell x.timer.cell_stop_ne
      · rename_i hkept
        rw [if_neg hkept]
        obtain ⟨hthread, y, hy, htimer, hgeneration⟩ := h.pending hx hi hcell
        refine ⟨hthread, ?_⟩
        by_cases hbx : b = x.buffer
        · rw [← hbx] at hy ⊢
          obtain rfl := Option.some.inj (hb.symm.trans hy)
          rcases hcases with ⟨-, hsame, hsame'⟩ | ⟨hold, -⟩
          · exact ⟨_, getElem?_onBuffer_self hb _, hsame.trans htimer, hsame'.trans hgeneration⟩
          · rw [hold, htimer] at hkept
            exact absurd (List.mem_singleton_self i) hkept
        · exact ⟨y, (getElem?_onBuffer_ne hbx _).trans hy, htimer, hgeneration⟩
    · rcases getElem?_onBuffer_cases hb hy with ⟨rfl, rfl⟩ | ⟨hbc, hold⟩
      · rcases hcases with ⟨hnone, hsame, -⟩ | ⟨-, hnone⟩
        · obtain ⟨x, hx, hxb, hcell⟩ := h.installed hb (hsame.symm.trans htimer) hi
          refine ⟨x, ?_, hxb, hcell⟩
          rw [getElem?_alarms_onBuffer hb, hx, hnone]
          simp
        · rw [hnone] at htimer
          cases htimer
      · obtain ⟨x, hx, hxc, hcell⟩ := h.installed hold htimer hi
        refine ⟨x, ?_, hxc, hcell⟩
        -- this buffer's timer is no other buffer's
        have hkept : i ∉ (buffer.act a).2.released := by
          intro hgiven
          obtain ⟨x', hx', hxb, -⟩ := h.installed hb (hown hgiven) hi
          obtain rfl := Option.some.inj (hx.symm.trans hx')
          exact hbc (hxb.symm.trans hxc)
        rw [getElem?_alarms_onBuffer hb, hx]
        simp [hkept]

theorem create (h : s.Tended none) (c : Config) : (s.create c).1.Tended none := by
  have hold : ∀ {b i : Nat} {buffer : Buffer}, (s.create c).1.buffers[b]? = some buffer →
      buffer.state.timer = some i → s.buffers[b]? = some buffer := by
    intro b i buffer hb htimer
    have hnew : (s.buffers ++ [.ofConfig c])[b]? = some buffer := hb
    rw [List.getElem?_append] at hnew
    split at hnew
    · exact hnew
    · rw [List.getElem?_singleton] at hnew
      split at hnew
      · cases hnew
        cases htimer
      · cases hnew
  refine ⟨fun ha hi => h.idle ha hi, fun ha hi hcell => ?_, fun hb htimer hi => ?_⟩
  · obtain ⟨hthread, buffer, hb, hrest⟩ := h.pending ha hi hcell
    refine ⟨hthread, buffer, ?_, hrest⟩
    exact (List.getElem?_append_left (List.getElem?_eq_some_iff.mp hb).1).trans hb
  · exact h.installed (hold hb htimer) htimer hi

/-- A buffer that nothing holds on to gives its timer up. -/
theorem retire (h : s.Tended none) (b : Nat) : (s.retire b).Tended none := by
  rw [Session.retire]
  split
  · exact h
  · exact h.act b (a := .abandon) rfl

theorem startDeadline (h : s.Tended none) (b : Nat) (lead : Option Lead) :
    (s.startDeadline b lead).1.Tended none := by
  have hfirst := h.act b (a := .startDeadline s.now (lead.map (Lead.instant s.now))) rfl
  rw [Session.startDeadline]
  dsimp only
  split
  · split
    · exact hfirst
    · split
      · exact hfirst
      · exact hfirst.of_eq rfl rfl
  · exact hfirst

end Tended

/-! ## Timers going off -/

/-- A timer's thread that wakes enters the callback, if the deadline has come and the timer
    is pending, or goes back to sleep, or away. -/
theorem wakeAlarm_cases {s : Session} {i : Nat} {a : Alarm} (ha : s.alarms[i]? = some a)
    (hidle : a.timer.thread ≠ .calling) (reading : Nat) :
    (a.timer.thread = .waiting ∧ a.timer.cell = .pending ∧ a.timer.deadline.hasCome reading = true
        ∧ s.wakeAlarm reading i
          = ((((s.onTimer i (·.wake reading)).onBuffer a.buffer (·.fire a.generation)).1.onTimer i
              Timer.leave),
            ((s.onTimer i (·.wake reading)).onBuffer a.buffer (·.fire a.generation)).2))
      ∨ ((a.timer.thread = .waiting → a.timer.cell = .pending →
            a.timer.deadline.hasCome reading = false)
        ∧ (a.timer.wake reading).cell = a.timer.cell
        ∧ (a.timer.cell = .pending → (a.timer.wake reading).thread = a.timer.thread)
        ∧ (a.timer.wake reading).thread ≠ .calling
        ∧ s.wakeAlarm reading i = (s.onTimer i (·.wake reading), {})) := by
  rw [wakeAlarm, ha]
  dsimp only
  rw [set_eq_onTimer ha (·.wake reading)]
  rcases a.timer.wake_cases reading with ⟨hthread, hcell, hcome, hwake⟩ | ⟨hnot, hcell, -, hkept⟩
  · refine Or.inl ⟨hthread, hcell, hcome, ?_⟩
    simp only [hwake]
    rfl
  · have hout := Timer.thread_wake_ne hidle hnot
    refine Or.inr ⟨hnot, hcell, hkept, hout, ?_⟩
    cases h : (a.timer.wake reading).thread with
    | calling => exact absurd h hout
    | waiting => rfl
    | finished => rfl

namespace Tended

variable {s : Session}

/-- A change of a timer that leaves its cell alone, and its thread if it is pending. -/
theorem onTimer_quiet (h : s.Tended none) {i : Nat} {g : Timer → Timer}
    (hg : ∀ a, s.alarms[i]? = some a → (g a.timer).cell = a.timer.cell
      ∧ (a.timer.cell = .pending → (g a.timer).thread = a.timer.thread)
      ∧ (g a.timer).thread ≠ .calling) : (s.onTimer i g).Tended none := by
  refine ⟨fun {j x} hx hj => ?_, fun {j x} hx hj hcell => ?_, fun hb htimer hj => ?_⟩
  · rw [getElem?_onTimer, Option.map_eq_some_iff] at hx
    obtain ⟨a, ha, rfl⟩ := hx
    split
    · rename_i hij
      exact (hg a (hij ▸ ha)).2.2
    · exact h.idle ha hj
  · rw [getElem?_onTimer, Option.map_eq_some_iff] at hx
    obtain ⟨a, ha, rfl⟩ := hx
    split at hcell
    · rename_i hij
      obtain ⟨hsame, hthread, -⟩ := hg a (hij ▸ ha)
      rw [if_pos hij]
      have hold := h.pending ha hj (hsame.symm.trans hcell)
      exact ⟨(hthread (hsame.symm.trans hcell)).trans hold.1, hold.2⟩
    · rename_i hij
      rw [if_neg hij]
      exact h.pending ha hj hcell
  · obtain ⟨a, ha, hab, hcell⟩ := h.installed hb htimer hj
    rw [getElem?_onTimer, ha]
    refine ⟨_, rfl, ?_⟩
    split
    · rename_i hij
      exact ⟨hab, (hg a (hij ▸ ha)).1.trans hcell⟩
    · exact ⟨hab, hcell⟩

/-- A timer that went off is over. -/
theorem wakeAlarm (h : s.Tended none) (reading i : Nat) :
    (s.wakeAlarm reading i).1.Tended none := by
  cases ha : s.alarms[i]? with
  | none =>
    rw [Session.wakeAlarm, ha]
    exact h
  | some a =>
    rcases wakeAlarm_cases ha (h.idle ha (by simp)) reading
      with ⟨hthread, hcell, hcome, hwake⟩ | ⟨-, hcell, hkept, hout, hwake⟩
    · -- the callback takes the timer out of its buffer, the only one that had it installed
      obtain ⟨-, buffer, hb, htimer, hgeneration⟩ := h.pending ha (by simp) hcell
      let woken := s.onTimer i (·.wake reading)
      have hbefore : woken.buffers[a.buffer]? = some buffer := hb
      have hfired : (woken.onBuffer a.buffer (·.fire a.generation)).1.Tended (some i) :=
        ((h.loosen i).onTimer (·.wake reading)).act a.buffer (a := .fire a.generation) rfl
      have hfree : (woken.onBuffer a.buffer (·.fire a.generation)).1.Uninstalled i := by
        intro b y hy htimer'
        rcases getElem?_onBuffer_cases hbefore hy with ⟨-, rfl⟩ | ⟨hne, hold⟩
        · have hnone : (buffer.fire a.generation).1.state.timer = none := by
            have hfields := (buffer.fields_act (.fire a.generation)).2.2.1
            simp only [Buffer.change, if_pos hgeneration] at hfields
            exact hfields
          rw [hnone] at htimer'
          cases htimer'
        · obtain ⟨x, hx, hxb, -⟩ := h.installed hold htimer' (by simp)
          obtain rfl := Option.some.inj (ha.symm.trans hx)
          exact hne hxb
      rw [hwake]
      refine (hfired.onTimer Timer.leave).tie (fun x hx => ?_) hfree
      have hwoken : woken.alarms[i]? = some { a with timer := a.timer.wake reading } := by
        rw [getElem?_onTimer, ha]
        simp
      rw [getElem?_onTimer, getElem?_alarms_onBuffer hbefore, hwoken] at hx
      simp only [Option.map_some, if_true, Option.some.injEq] at hx
      rw [← hx]
      rw [Timer.wake_of_hasCome hthread hcell hcome]
      split <;> simp [Timer.stop, Timer.leave]
    · rw [hwake]
      show (s.onTimer i (·.wake reading)).Tended none
      refine h.onTimer_quiet fun x hx => ?_
      obtain rfl := Option.some.inj (ha.symm.trans hx)
      exact ⟨hcell, hkept, hout⟩

theorem wakeAlarms (h : s.Tended none) (reading : Nat) (ids : List Nat) :
    (s.wakeAlarms reading ids).1.Tended none := by
  induction ids generalizing s with
  | nil => exact h
  | cons i rest ih => exact ih (h.wakeAlarm reading i)

theorem elapse (h : s.Tended none) : s.elapse.1.Tended none :=
  wakeAlarms (s := { s with now := s.now + 1 }) (h.of_eq rfl rfl) _ _

end Tended

/-! ## Timers started -/

theorem Uninstalled.act {s : Session} {i : Nat} (h : s.Uninstalled i) (b : Nat)
    {a : Buffer.Action} (ha : a.takes = false) :
    (s.onBuffer b fun x => x.act a).1.Uninstalled i := by
  intro c y hy htimer
  cases hb : s.buffers[b]? with
  | none =>
    rw [onBuffer_of_none hb] at hy
    exact h hy htimer
  | some buffer =>
    rcases getElem?_onBuffer_cases hb hy with ⟨-, rfl⟩ | ⟨-, hold⟩
    · rcases buffer.released_act_cases ha with ⟨-, hsame, -⟩ | ⟨-, hnone⟩
      · exact h hb (hsame.symm.trans htimer)
      · rw [hnone] at htimer
        cases htimer
    · exact h hold htimer

namespace Tended

variable {s : Session}

/-- A new timer is loose, and installed nowhere. -/
theorem start (h : s.Tended none) (a : Alarm) :
    ({ s with alarms := s.alarms ++ [a] } : Session).Tended (some s.alarms.length)
      ∧ ({ s with alarms := s.alarms ++ [a] } : Session).Uninstalled s.alarms.length := by
  have hold : ∀ {i : Nat} {x : Alarm}, (s.alarms ++ [a])[i]? = some x →
      some s.alarms.length ≠ some i → s.alarms[i]? = some x := by
    intro i x hx hi
    rw [List.getElem?_append] at hx
    split at hx
    · exact hx
    · rename_i hge
      rw [List.getElem?_singleton] at hx
      split at hx
      · exact absurd (congrArg some (show s.alarms.length = i by omega)) hi
      · cases hx
  refine ⟨⟨fun hx hi => h.idle (hold hx hi) (by simp),
    fun hx hi => h.pending (hold hx hi) (by simp), fun hb htimer hi => ?_⟩, fun hb htimer => ?_⟩
  · obtain ⟨x, hx, hrest⟩ := h.installed hb htimer (by simp)
    exact ⟨x, (List.getElem?_append_left (List.getElem?_eq_some_iff.mp hx).1).trans hx, hrest⟩
  · obtain ⟨x, hx, -⟩ := h.installed hb htimer (by simp)
    exact absurd (List.getElem?_eq_some_iff.mp hx).1 (Nat.lt_irrefl _)

/-- A loose timer that its buffer takes is tied, and the one that it replaces is stopped. -/
theorem take {i : Nat} (h : s.Tended (some i)) (hfree : s.Uninstalled i) {x : Alarm}
    (hx : s.alarms[i]? = some x) (hcell : x.timer.cell = .pending)
    (hthread : x.timer.thread = .waiting) {buffer : Buffer}
    (hb : s.buffers[x.buffer]? = some buffer) (hgeneration : buffer.state.generation = x.generation)
    {f : Buffer → Buffer × Effects} {events : List Event}
    (hf : f buffer = ({ buffer with state := { buffer.state with timer := some i } },
      { events, released := buffer.state.timer.toList })) :
    (s.onBuffer x.buffer f).1.Tended none := by
  have hself := getElem?_onBuffer_self hb f
  have hkept : (s.onBuffer x.buffer f).1.alarms[i]? = some x := by
    have hnot : i ∉ buffer.state.timer.toList := fun hi => hfree hb (Option.mem_toList.mp hi)
    rw [getElem?_alarms_onBuffer hb, hx, hf]
    simp [hnot]
  refine ⟨fun {j y} hy _ => ?_, fun {j y} hy _ hj => ?_, fun {c j z} hz htimer _ => ?_⟩
  · by_cases hij : i = j
    · subst hij
      obtain rfl := Option.some.inj (hkept.symm.trans hy)
      simp [hthread]
    · rw [getElem?_alarms_onBuffer hb, Option.map_eq_some_iff] at hy
      obtain ⟨y, hy, rfl⟩ := hy
      have hold := h.idle hy (by simpa using hij)
      split
      · exact y.timer.thread_stop.trans_ne hold
      · exact hold
  · by_cases hij : i = j
    · subst hij
      obtain rfl := Option.some.inj (hkept.symm.trans hy)
      refine ⟨hthread, _, hself, ?_⟩
      rw [hf]
      exact ⟨rfl, hgeneration⟩
    · rw [getElem?_alarms_onBuffer hb, Option.map_eq_some_iff] at hy
      obtain ⟨y, hy, rfl⟩ := hy
      split at hj
      · exact absurd hj y.timer.cell_stop_ne
      · rename_i hgiven
        rw [if_neg hgiven]
        obtain ⟨hwaiting, z, hz, htimer, hof⟩ := h.pending hy (by simpa using hij) hj
        refine ⟨hwaiting, z, (getElem?_onBuffer_ne ?_ _).trans hz, htimer, hof⟩
        -- the timer that this buffer had is stopped
        intro hsame
        rw [← hsame] at hz
        obtain rfl := Option.some.inj (hb.symm.trans hz)
        rw [hf] at hgiven
        exact hgiven (Option.mem_toList.mpr htimer)
  · rcases getElem?_onBuffer_cases hb hz with ⟨rfl, rfl⟩ | ⟨hne, hold⟩
    · rw [hf] at htimer
      obtain rfl := Option.some.inj htimer
      exact ⟨x, hkept, rfl, hcell⟩
    · have hij : i ≠ j := fun hij => hfree hold (hij ▸ htimer)
      obtain ⟨y, hy, hyc, hj⟩ := h.installed hold htimer (by simpa using hij)
      refine ⟨y, ?_, hyc, hj⟩
      have hgiven : j ∉ buffer.state.timer.toList := by
        intro hmem
        obtain ⟨y', hy', hyb, -⟩ :=
          h.installed hb (Option.mem_toList.mp hmem) (by simpa using hij)
        obtain rfl := Option.some.inj (hy.symm.trans hy')
        exact hne (hyb.symm.trans hyc)
      rw [getElem?_alarms_onBuffer hb, hy, hf]
      simp [hgiven]

/-- A loose timer that is handed to its buffer is taken or stopped. -/
theorem handOver {i : Nat} (h : s.Tended (some i)) (hfree : s.Uninstalled i) {x : Alarm}
    (hx : s.alarms[i]? = some x) (hidle : x.timer.thread ≠ .calling) {buffer : Buffer}
    (hb : s.buffers[x.buffer]? = some buffer)
    (hpending : buffer.state.generation = x.generation → buffer.state.deadlineReached = false →
      x.timer.cell = .pending ∧ x.timer.thread = .waiting) :
    (s.onBuffer x.buffer (·.install x.generation i)).1.Tended none := by
  by_cases htaken : buffer.state.generation = x.generation ∧ buffer.state.deadlineReached = false
  · obtain ⟨hcell, hthread⟩ := hpending htaken.1 htaken.2
    exact h.take hfree hx hcell hthread hb htaken.1 (by rw [Buffer.install, if_pos htaken])
  · have hinstall : buffer.install x.generation i = (buffer, { released := [i] }) := by
      rw [Buffer.install, if_neg htaken]
    -- nothing else changes, and the timer is over
    have halarms : (s.onBuffer x.buffer (·.install x.generation i)).1
        = s.onTimer i fun t => t.stop.2 := by
      obtain ⟨hlt, hget⟩ := List.getElem?_eq_some_iff.mp hb
      have hset : s.buffers.set x.buffer buffer = s.buffers := by
        rw [← hget]
        exact List.set_getElem_self hlt
      have hrecords : s.records.modify x.buffer (· ++ []) = s.records := by
        simp only [List.append_nil]
        exact List.modify_id x.buffer s.records
      rw [onBuffer_of_getElem? hb, hinstall, put, hset, hrecords]
      rfl
    rw [halarms]
    refine (h.onTimer _).tie (fun y hy => ?_) hfree
    rw [getElem?_onTimer, hx] at hy
    simp only [Option.map_some, if_true, Option.some.injEq] at hy
    rw [← hy]
    exact ⟨x.timer.thread_stop.trans_ne hidle, x.timer.cell_stop_ne⟩

/-- A timer that is started and handed over is not loose any more. -/
theorem launch (h : s.Tended none) {a : Arming} {buffer : Buffer}
    (hb : s.buffers[a.buffer]? = some buffer) (reading : Nat) :
    (s.launch a reading).1.Tended none := by
  let i := s.alarms.length
  let started := s.startThread a
  obtain ⟨hstarted, hfree⟩ : started.Tended (some i) ∧ started.Uninstalled i := h.start a.alarm
  have hfresh : started.alarms[i]? = some a.alarm := List.getElem?_concat_length
  have hbuffer : started.buffers[a.buffer]? = some buffer := hb
  show ((started.wakeAlarm reading i).1.onBuffer a.buffer (·.install a.generation i)).1.Tended none
  rcases wakeAlarm_cases hfresh (by simp [Arming.alarm]) reading
    with ⟨-, -, -, hwake⟩ | ⟨hnot, -, -, -, hwake⟩
  · let woken := started.onTimer i (·.wake reading)
    let fired := (woken.onBuffer a.buffer (·.fire a.generation)).1
    have hfired : fired.Tended (some i) :=
      (hstarted.onTimer (·.wake reading)).act a.buffer (a := .fire a.generation) rfl
    have hfree' : fired.Uninstalled i :=
      Uninstalled.act (s := woken) hfree a.buffer (a := .fire a.generation) rfl
    have hself : fired.buffers[a.buffer]? = some (buffer.fire a.generation).1 :=
      getElem?_onBuffer_self (s := woken) hbuffer _
    have htimer : ∃ timer : Timer, (fired.onTimer i Timer.leave).alarms[i]?
        = some { a.alarm with timer } ∧ timer.thread ≠ .calling := by
      have hwoken : woken.alarms[i]?
          = some { a.alarm with timer := a.alarm.timer.wake reading } := by
        rw [getElem?_onTimer, hfresh]
        simp
      refine ⟨(if i ∈ (buffer.fire a.generation).2.released then
        (a.alarm.timer.wake reading).stop.2 else a.alarm.timer.wake reading).leave, ?_,
        Timer.thread_leave_ne _⟩
      rw [getElem?_onTimer, getElem?_alarms_onBuffer (s := woken) hbuffer, hwoken]
      simp only [Option.map_some, if_true]
      split <;> rfl
    obtain ⟨timer, halarm, hidle⟩ := htimer
    rw [hwake]
    refine handOver (hfired.onTimer Timer.leave) hfree' halarm hidle hself ?_
    -- a callback of the current generation has reached the deadline
    intro hgeneration hreached
    obtain ⟨-, hflag, -, hsame⟩ := buffer.fields_act (.fire a.generation)
    have hcurrent : buffer.state.generation = a.generation := by
      have hof : (buffer.change (.fire a.generation)).1.generation = a.generation :=
        hsame.symm.trans hgeneration
      simp only [Buffer.change] at hof
      split at hof
      · assumption
      · exact hof
    have hfalse : (buffer.change (.fire a.generation)).1.deadlineReached = false :=
      hflag.symm.trans hreached
    simp [Buffer.change, hcurrent] at hfalse
  · -- the thread sleeps
    have hasleep : a.alarm.timer.wake reading = a.alarm.timer := by
      have hnotYet : a.deadline.hasCome reading = false := hnot rfl rfl
      simp [Arming.alarm, Timer.wake, hnotYet]
    have halarm : (started.onTimer i (·.wake reading)).alarms[i]? = some a.alarm := by
      rw [getElem?_onTimer, hfresh]
      simp [hasleep]
    rw [hwake]
    exact handOver (hstarted.onTimer (·.wake reading)) hfree halarm (by simp [Arming.alarm])
      hbuffer fun _ _ => ⟨rfl, rfl⟩

/-- The second half of a change. -/
theorem finishDeadline (h : s.Tended none) {a : Arming} {buffer : Buffer}
    (hb : s.buffers[a.buffer]? = some buffer) (launch : Launch) :
    (s.finishDeadline a launch).1.Tended none := by
  cases launch with
  | prompt => exact (h.launch hb s.now).of_eq rfl rfl
  | overtaken => exact (h.launch hb (s.now + 1)).of_eq rfl rfl
  | refused =>
    exact (h.act a.buffer (a := .startRefused a.generation) rfl).of_eq rfl rfl

end Tended

end Session

end StreamBuffer
