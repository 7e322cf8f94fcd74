/-
  StreamBuffer.Proofs.Timer.History

  Many timers beside one clock, with all that can happen to them in any order, and what
  an observer notes of it.

  An event is one critical section under a timer's lock, or a tick of the clock. Threads
  wake at any moment and for whatever reason; owners stop their timers and let them go at
  any moment, also while a callback runs. Every order is the order of some list of events
  (`TimerTable.run`), and the moments at which a table lets threads run are such lists
  (`start_eq_run`, `elapse_eq_run`).

  `step_cases` says once what an event does: nothing to any timer, or a new timer, or one
  transition of one timer with the note that belongs to it.
-/
import StreamBuffer.Timer.Table
import Mathlib.Data.List.Basic

namespace StreamBuffer

/-! ## Transitions of one timer -/

namespace Timer

/-- A thread's waking: the callback is entered if the deadline has come and nobody
    stopped the timer, else neither the cell nor the number of runs changes. -/
theorem wake_cases (x : Timer) (now : Nat) :
    (x.thread = .waiting ∧ x.cell = .pending ∧ x.deadline.hasCome now = true
        ∧ x.wake now = { x with cell := .fired, thread := .calling, runs := x.runs + 1 })
      ∨ ((x.thread = .waiting → x.cell = .pending → x.deadline.hasCome now = false)
        ∧ (x.wake now).cell = x.cell ∧ (x.wake now).runs = x.runs
        ∧ (x.cell = .pending → (x.wake now).thread = x.thread)) := by
  obtain ⟨deadline, cell, thread, runs⟩ := x
  cases thread <;> cases cell <;> cases hcome : deadline.hasCome now <;> simp [wake, hcome]

/-- A thread that wakes once the deadline has come enters the callback. -/
theorem wake_of_hasCome {x : Timer} {now : Nat} (hthread : x.thread = .waiting)
    (hcell : x.cell = .pending) (hcome : x.deadline.hasCome now = true) :
    x.wake now = { x with cell := .fired, thread := .calling, runs := x.runs + 1 } := by
  simp only [wake, hthread, hcell, if_pos hcome]

theorem deadline_wake (x : Timer) (now : Nat) : (x.wake now).deadline = x.deadline := by
  unfold wake
  split
  · split <;> rfl
  · rfl
  · rfl
  · rfl
  · rfl

/-- A stop: it is in time if the cell is pending, else nothing changes. -/
theorem stop_cases (x : Timer) :
    (x.cell = .pending ∧ x.stop = (true, { x with cell := .stopped }))
      ∨ (x.cell ≠ .pending ∧ x.stop = (false, x)) := by
  obtain ⟨deadline, cell, thread, runs⟩ := x
  cases cell <;> simp [stop]

theorem deadline_stop (x : Timer) : x.stop.2.deadline = x.deadline := by
  rcases x.stop_cases with ⟨-, hstop⟩ | ⟨-, hstop⟩ <;> rw [hstop]

theorem thread_stop (x : Timer) : x.stop.2.thread = x.thread := by
  rcases x.stop_cases with ⟨-, hstop⟩ | ⟨-, hstop⟩ <;> rw [hstop]

/-- The callback's return concerns the thread alone, and not a thread that is asleep. -/
theorem leave_eq (x : Timer) :
    ∃ thread, x.leave = { x with thread } ∧ (x.thread = .waiting → thread = .waiting) := by
  unfold leave
  split
  · rename_i h
    exact ⟨.finished, rfl, by simp [h]⟩
  · exact ⟨x.thread, rfl, id⟩
  · exact ⟨x.thread, rfl, id⟩

end Timer

namespace TimerTable

/-- The timer of the given number, whoever has it. -/
def timer? (t : TimerTable) (i : Nat) : Option Timer := t.slots[i]?.bind TimerSlot.timer

/-! ## Events and notes -/

/-- What can happen: a timer's thread is started, for whatever deadline, or its start fails;
    the owner stops the timer, lets it go, or holds its callback up no longer; its thread
    wakes; its callback returns; the clock moves on. -/
inductive Event where
  | start (deadline : Instant) (held : Bool)
  | fail
  | stop (i : Nat)
  | letGo (i : Nat)
  | release (i : Nat)
  | wake (i : Nat)
  | leave (i : Nat)
  | tick
  deriving Repr, DecidableEq

/-- The timer that an event is about, if it is about one that was there. -/
def Event.timer? : Event → Option Nat
  | .stop i | .letGo i | .release i | .wake i | .leave i => some i
  | .start _ _ | .fail | .tick => none

/-- What is noted of a timer: the answer to a stop; that its owner let it go; that its
    callback was entered, with the clock's reading. -/
inductive Note where
  | answered (i : Nat) (kept : Bool)
  | letGo (i : Nat)
  | entered (i : Nat) (now : Nat)
  deriving Repr, DecidableEq

namespace Note

/-- The timer that a note is about. -/
def timer : Note → Nat
  | .answered i _ | .letGo i | .entered i _ => i

/-- The callback of timer `i` was entered. -/
def enters (i : Nat) : Note → Bool
  | .entered j _ => j == i
  | .answered _ _ | .letGo _ => false

/-- Timer `i` was stopped, and that kept its callback from running. -/
def keeps (i : Nat) : Note → Bool
  | .answered j kept => j == i && kept
  | .letGo _ | .entered _ _ => false

/-- After this note it is settled whether the callback of timer `i` runs. -/
def settles (i : Nat) : Note → Bool
  | .answered j kept => j == i && kept
  | .letGo j | .entered j _ => j == i

end Note

/-! ## Runs -/

/-- One event, and the note made of it. A callback was entered if the number of runs
    went up. -/
def step (t : TimerTable) : Event → TimerTable × Option Note
  | .start deadline held => (t.push { timer := some { deadline }, held }, none)
  | .fail => (t.push { timer := none }, none)
  | .stop i => ((t.stop i).2, (t.stop i).1.map (Note.answered i))
  | .letGo i => ((t.letGo i).2, (t.letGo i).1.map fun _ => Note.letGo i)
  | .release i => ((t.release i).2, none)
  | .wake i => (t.wake i, if (t.wake i).runs = t.runs then none else some (.entered i t.now))
  | .leave i => (t.leave i, none)
  | .tick => (t.tick, none)

/-- Events one after the other, and the notes made of them. -/
def run (t : TimerTable) : List Event → TimerTable × List Note
  | [] => (t, [])
  | e :: rest => (((t.step e).1.run rest).1, (t.step e).2.toList ++ ((t.step e).1.run rest).2)

theorem run_append (t : TimerTable) (first second : List Event) :
    t.run (first ++ second)
      = (((t.run first).1.run second).1, (t.run first).2 ++ ((t.run first).1.run second).2) := by
  induction first generalizing t with
  | nil => rfl
  | cons e rest ih =>
    rw [List.cons_append, run, run, ih]
    simp only [List.append_assoc]

/-! ## Slots -/

theorem timer?_onSlot_self (t : TimerTable) (i : Nat) (f : TimerSlot → TimerSlot) :
    (t.onSlot i f).timer? i = t.slots[i]?.bind fun s => (f s).timer := by
  rw [timer?, onSlot, List.getElem?_modify]
  cases t.slots[i]? with
  | none => rfl
  | some s =>
    show (if i = i then f s else s).timer = _
    rw [if_pos rfl]
    rfl

theorem slots_onSlot_ne {t : TimerTable} {i j : Nat} (hij : i ≠ j) (f : TimerSlot → TimerSlot) :
    (t.onSlot i f).slots[j]? = t.slots[j]? := by
  simp only [onSlot, List.getElem?_modify, if_neg hij, Option.map_eq_map, Option.map_id']

theorem onSlot_of_none {t : TimerTable} {i : Nat} (h : t.slots[i]? = none)
    (f : TimerSlot → TimerSlot) : t.onSlot i f = t := by
  rw [onSlot, List.modify_eq_self (List.getElem?_eq_none_iff.mp h)]

/-- A timer is there in a slot that holds it. -/
theorem exists_slot_of_timer? {t : TimerTable} {i : Nat} {x : Timer} (h : t.timer? i = some x) :
    ∃ s, t.slots[i]? = some s ∧ s.timer = some x :=
  Option.bind_eq_some_iff.mp h

/-- The owner's timer is the timer of its slot. -/
theorem timer?_of_live? {t : TimerTable} {i : Nat} {x : Timer} (h : t.live? i = some x) :
    t.timer? i = some x := by
  obtain ⟨s, hs, hlive⟩ := Option.bind_eq_some_iff.mp h
  rw [TimerSlot.live?] at hlive
  split at hlive
  · rw [timer?, hs]
    exact hlive
  · cases hlive

theorem slots_push_of_lt {t : TimerTable} {slot : TimerSlot} {j : Nat} (h : j < t.slots.length) :
    (t.push slot).slots[j]? = t.slots[j]? :=
  List.getElem?_append_left h

/-- No event on one timer touches another, or the clock or a new timer any. -/
theorem slots_step_ne {t : TimerTable} {e : Event} {j : Nat} (he : e.timer? ≠ some j)
    (hj : j < t.slots.length) : (t.step e).1.slots[j]? = t.slots[j]? := by
  have hne : ∀ i, e.timer? = some i → i ≠ j := by
    rintro i hi rfl
    exact he hi
  cases e with
  | start deadline held => exact slots_push_of_lt hj
  | fail => exact slots_push_of_lt hj
  | stop i =>
    simp only [step, stop]
    split
    · rfl
    · exact slots_onSlot_ne (hne i rfl) _
  | letGo i =>
    simp only [step, letGo]
    split
    · rfl
    · exact slots_onSlot_ne (hne i rfl) _
  | release i =>
    simp only [step, release]
    split
    · rfl
    · exact slots_onSlot_ne (hne i rfl) _
  | wake i => exact slots_onSlot_ne (hne i rfl) _
  | leave i => exact slots_onSlot_ne (hne i rfl) _
  | tick => rfl

/-! ## What an event does -/

/-- One timer comes to be `x`, and all others stay as they are. -/
structure Changes (t t' : TimerTable) (i : Nat) (x : Timer) : Prop where
  self : t'.timer? i = some x
  others : ∀ j, i ≠ j → t'.timer? j = t.timer? j

theorem timer?_onSlot_ne {t : TimerTable} {i j : Nat} (hij : i ≠ j)
    (f : TimerSlot → TimerSlot) : (t.onSlot i f).timer? j = t.timer? j := by
  rw [timer?, slots_onSlot_ne hij]
  rfl

theorem changes_onSlot {t : TimerTable} {i : Nat} {x : Timer} {f : TimerSlot → TimerSlot}
    {g : Timer → Timer} (hx : t.timer? i = some x)
    (hf : ∀ s, (f s).timer = s.timer.map g) : t.Changes (t.onSlot i f) i (g x) := by
  refine ⟨?_, fun j hij => timer?_onSlot_ne hij f⟩
  obtain ⟨s, hs, htimer⟩ := exists_slot_of_timer? hx
  rw [timer?_onSlot_self, hs, Option.bind_some, hf, htimer]
  rfl

/-- What leaves the timer of its slot alone leaves all timers alone. -/
theorem timer?_onSlot_eq {t : TimerTable} {i : Nat} {f : TimerSlot → TimerSlot}
    (hf : ∀ s, t.slots[i]? = some s → (f s).timer = s.timer) (j : Nat) :
    (t.onSlot i f).timer? j = t.timer? j := by
  by_cases hij : i = j
  · subst hij
    rw [timer?_onSlot_self, timer?]
    cases hs : t.slots[i]? with
    | none => rfl
    | some s => exact hf s hs
  · exact timer?_onSlot_ne hij f

theorem timer_eq_none {t : TimerTable} {i : Nat} (hx : t.timer? i = none) {s : TimerSlot}
    (hs : t.slots[i]? = some s) : s.timer = none := by
  rw [timer?, hs] at hx
  exact hx

/-- What an event does to the timers, and what is noted of it. -/
inductive Step (t : TimerTable) : TimerTable → Option Note → Prop where
  | quiet {t' : TimerTable} (h : ∀ j, t'.timer? j = t.timer? j) : Step t t' none
  | started {t' : TimerTable} {i : Nat} {deadline : Instant} (hnew : t.timer? i = none)
      (h : t.Changes t' i { deadline }) : Step t t' none
  | stopped {t' : TimerTable} {i : Nat} {x : Timer} (hx : t.timer? i = some x)
      (h : t.Changes t' i x.stop.2) : Step t t' (some (.answered i x.stop.1))
  | dropped {t' : TimerTable} {i : Nat} {x : Timer} (hx : t.timer? i = some x)
      (h : t.Changes t' i x.stop.2) : Step t t' (some (.letGo i))
  | woke {t' : TimerTable} {i : Nat} {x : Timer} (hx : t.timer? i = some x)
      (h : t.Changes t' i (x.wake t.now)) :
      Step t t' (if (x.wake t.now).runs = x.runs then none else some (.entered i t.now))
  | left {t' : TimerTable} {i : Nat} {x : Timer} (hx : t.timer? i = some x)
      (h : t.Changes t' i x.leave) : Step t t' none

theorem step_push_none (t : TimerTable) : Step t (t.push { timer := none }) none := by
  refine .quiet fun j => ?_
  rcases Nat.lt_or_ge j t.slots.length with hlt | hge
  · rw [timer?, slots_push_of_lt hlt]
    rfl
  · have hnone : t.timer? j = none := by
      rw [timer?, List.getElem?_eq_none hge]
      rfl
    rw [hnone, timer?, push, List.getElem?_append_right hge]
    cases j - t.slots.length <;> rfl

theorem timer?_length (t : TimerTable) : t.timer? t.slots.length = none := by
  rw [timer?, List.getElem?_eq_none (Nat.le_refl _)]
  rfl

theorem changes_push (t : TimerTable) (deadline : Instant) (held : Bool) :
    t.Changes (t.push { timer := some { deadline }, held }) t.slots.length { deadline } := by
  refine ⟨?_, ?_⟩
  · rw [timer?, push, List.getElem?_concat_length]
    rfl
  · intro j hj
    rcases Nat.lt_or_ge j t.slots.length with hlt | hge
    · rw [timer?, slots_push_of_lt hlt]
      rfl
    · have hnone : t.timer? j = none := by
        rw [timer?, List.getElem?_eq_none hge]
        rfl
      have hnone' : (t.slots ++ [{ timer := some { deadline }, held }])[j]? = none := by
        rw [List.getElem?_eq_none]
        rw [List.length_append, List.length_singleton]
        omega
      rw [hnone, timer?, push, hnone']
      rfl

theorem step_push_some (t : TimerTable) (deadline : Instant) (held : Bool) :
    Step t (t.push { timer := some { deadline }, held }) none :=
  .started t.timer?_length (t.changes_push deadline held)

/-- The numbers of runs that are shown are those of the timers; a slot without a timer
    shows none. -/
theorem runs_getElem? (t : TimerTable) (j : Nat) :
    t.runs[j]? = t.slots[j]?.map fun _ => ((t.timer? j).map Timer.runs).getD 0 := by
  rw [runs, List.getElem?_map, timer?]
  cases t.slots[j]? <;> rfl

theorem runs_onSlot_eq {t : TimerTable} {i : Nat} {f : TimerSlot → TimerSlot}
    (h : ∀ j, ((t.onSlot i f).timer? j).map Timer.runs = (t.timer? j).map Timer.runs) :
    (t.onSlot i f).runs = t.runs := by
  refine List.ext_getElem? fun j => ?_
  rw [runs_getElem?, runs_getElem?, h]
  by_cases hij : i = j
  · subst hij
    cases hs : t.slots[i]? with
    | none => rw [onSlot_of_none hs, hs]
    | some s =>
      rw [onSlot, List.getElem?_modify, hs]
      rfl
  · rw [slots_onSlot_ne hij]

theorem runs_getElem?_of_timer? {t : TimerTable} {i : Nat} {x : Timer} (h : t.timer? i = some x) :
    t.runs[i]? = some x.runs := by
  obtain ⟨s, hs, -⟩ := exists_slot_of_timer? h
  rw [runs_getElem?, hs, h]
  rfl

/-- All that a thread's waking shows is whether its own timer's runs went up. -/
theorem runs_wake_eq_iff {t : TimerTable} {i : Nat} {x : Timer} (hx : t.timer? i = some x) :
    (t.wake i).runs = t.runs ↔ (x.wake t.now).runs = x.runs := by
  have hchanges := changes_onSlot (f := TimerSlot.wake t.now) (g := (Timer.wake · t.now)) hx
    fun _ => rfl
  constructor
  · intro h
    obtain ⟨s, hs, -⟩ := exists_slot_of_timer? hchanges.self
    obtain ⟨s', hs', -⟩ := exists_slot_of_timer? hx
    have hshown := congrArg (·[i]?) h
    simp only [wake, runs_getElem?, hs, hs', hchanges.self, hx] at hshown
    exact Option.some.inj hshown
  · intro h
    refine runs_onSlot_eq fun j => ?_
    by_cases hij : i = j
    · subst hij
      rw [hchanges.self, hx, Option.map_some, Option.map_some, h]
    · rw [hchanges.others j hij]

theorem step_wake (t : TimerTable) (i : Nat) : Step t (t.wake i) (t.step (.wake i)).2 := by
  show Step t (t.wake i) (if (t.wake i).runs = t.runs then none else some (.entered i t.now))
  cases hx : t.timer? i with
  | none =>
    have hsame := timer?_onSlot_eq (t := t) (i := i) (f := TimerSlot.wake t.now) fun s hs => by
      have hnone := timer_eq_none hx hs
      simp only [TimerSlot.wake, TimerSlot.onTimer, hnone, Option.map_none]
    have hruns : (t.wake i).runs = t.runs := runs_onSlot_eq fun j => by rw [hsame]
    rw [if_pos hruns]
    exact .quiet hsame
  | some x =>
    have hwoke := Step.woke hx (changes_onSlot (f := TimerSlot.wake t.now) hx fun _ => rfl)
    simp only [runs_wake_eq_iff hx]
    exact hwoke

/-- A callback that is held up does not return. -/
theorem step_leave (t : TimerTable) (i : Nat) : Step t (t.leave i) none := by
  cases hx : t.timer? i with
  | none =>
    refine .quiet (timer?_onSlot_eq fun s hs => ?_)
    have hnone := timer_eq_none hx hs
    rw [TimerSlot.leave]
    split
    · rfl
    · simp only [TimerSlot.onTimer, hnone, Option.map_none]
  | some x =>
    obtain ⟨s, hs, htimer⟩ := exists_slot_of_timer? hx
    cases hheld : s.held with
    | true =>
      refine .quiet (timer?_onSlot_eq fun s' hs' => ?_)
      obtain rfl : s = s' := Option.some.inj (hs.symm.trans hs')
      rw [TimerSlot.leave, if_pos hheld]
    | false =>
      refine .left hx ⟨?_, fun j hij => timer?_onSlot_ne hij _⟩
      rw [leave, timer?_onSlot_self, hs, Option.bind_some, TimerSlot.leave, hheld]
      simp only [TimerSlot.onTimer, htimer]
      rfl

/-- These are all the cases. -/
theorem step_cases (t : TimerTable) (e : Event) : Step t (t.step e).1 (t.step e).2 := by
  cases e with
  | start deadline held => exact step_push_some t deadline held
  | fail => exact step_push_none t
  | stop i =>
    simp only [step, stop]
    cases hx : t.live? i with
    | none => exact .quiet fun _ => rfl
    | some x =>
      have hx' := timer?_of_live? hx
      exact .stopped hx' (changes_onSlot (g := fun x => x.stop.2) hx' fun _ => rfl)
  | letGo i =>
    simp only [step, letGo]
    cases hx : t.live? i with
    | none => exact .quiet fun _ => rfl
    | some x =>
      have hx' := timer?_of_live? hx
      exact .dropped hx' (changes_onSlot (g := fun x => x.stop.2) hx' fun _ => rfl)
  | release i =>
    simp only [step, release]
    cases hx : t.live? i with
    | none => exact .quiet fun _ => rfl
    | some x =>
      have hx' := timer?_of_live? hx
      exact .left hx' (changes_onSlot (g := Timer.leave) hx' fun _ => rfl)
  | wake i => exact step_wake t i
  | leave i => exact step_leave t i
  | tick => exact .quiet fun _ => rfl

/-! ## The moments at which threads run -/

/-- A timer that is started, for the instant that its lead names, reads the clock at
    once. -/
theorem start_eq_run (t : TimerTable) (name : String) (lead : Lead) (held refused : Bool) :
    (t.start name lead held refused).2 = (t.run [.fail]).1
      ∨ (t.start name lead held refused).2
          = (t.run [.start (lead.instant t.now) held, .wake t.slots.length,
              .leave t.slots.length]).1 := by
  rw [start]
  split
  · exact Or.inl rfl
  · split
    · exact Or.inl rfl
    · exact Or.inr rfl

/-- The first `count` threads wake one after the other, and their callbacks return. -/
def wakeEvents (count : Nat) : List Event :=
  (List.range count).flatMap fun i => [.wake i, .leave i]

theorem run_wakeEvents_succ (t : TimerTable) (count : Nat) :
    (t.run (wakeEvents (count + 1))).1
      = ((t.run (wakeEvents count)).1.wake count).leave count := by
  rw [wakeEvents, List.range_succ, List.flatMap_append, run_append]
  rfl

theorem now_run_wakeEvents (t : TimerTable) (count : Nat) :
    (t.run (wakeEvents count)).1.now = t.now := by
  induction count with
  | zero => rfl
  | succ count ih =>
    rw [run_wakeEvents_succ]
    exact ih

/-- By induction on the number of threads that woke: each touches its own slot only. -/
theorem slots_run_wakeEvents (t : TimerTable) (count j : Nat) :
    (t.run (wakeEvents count)).1.slots[j]?
      = if j < count then t.slots[j]?.map fun s => (s.wake t.now).leave else t.slots[j]? := by
  induction count with
  | zero => rfl
  | succ count ih =>
    rw [run_wakeEvents_succ]
    by_cases hj : count = j
    · subst hj
      rw [if_neg (Nat.lt_irrefl _)] at ih
      simp only [leave, wake, onSlot, List.getElem?_modify, ih, now_run_wakeEvents,
        if_pos (Nat.lt_succ_self count)]
      cases t.slots[count]? <;> rfl
    · rw [leave, slots_onSlot_ne hj, wake, slots_onSlot_ne hj, ih]
      by_cases hlt : j < count
      · rw [if_pos hlt, if_pos (by omega)]
      · rw [if_neg hlt, if_neg (by omega)]

/-- When time passes, the clock moves on and every thread wakes. -/
theorem elapse_eq_run (t : TimerTable) :
    t.elapse = (t.run (.tick :: wakeEvents t.slots.length)).1 := by
  have hnow := now_run_wakeEvents t.tick t.slots.length
  have hslots : (t.tick.run (wakeEvents t.slots.length)).1.slots
      = t.slots.map fun s => (s.wake (t.now + 1)).leave := by
    refine List.ext_getElem? fun j => ?_
    rw [slots_run_wakeEvents, List.getElem?_map]
    split
    · rfl
    · rename_i hge
      show t.slots[j]? = _
      rw [List.getElem?_eq_none (by omega)]
      rfl
  show t.elapse = (t.tick.run (wakeEvents t.slots.length)).1
  rw [elapse]
  generalize (t.tick.run (wakeEvents t.slots.length)).1 = out at hnow hslots
  cases out
  cases hnow
  cases hslots
  rfl

end TimerTable

end StreamBuffer
