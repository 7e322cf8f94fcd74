/-
  StreamBuffer.Proofs.Session.Alarms

  The timers of a session, and who gives them up.

  An action on a buffer leaves its timer alone, or the timer is given up and the buffer has
  none (`Buffer.timer_act_cases`), unless it takes one (`Buffer.install_cases`); timers that
  are given up are stopped (`isPending_of_onBuffer`). For whom a timer was started never
  changes (`origin?_onBuffer`).
-/
import StreamBuffer.Proofs.Session.Action
import StreamBuffer.Proofs.Timer.History

namespace StreamBuffer

/-! ## The timer of a buffer -/

/-- Generations do not wrap around as long as they are few. -/
theorem toNat_add_ofNat {g : UInt64} {k : Nat} (h : g.toNat + k < UInt64.size) :
    (g + UInt64.ofNat k).toNat = g.toNat + k := by
  have hsize : UInt64.size = 2 ^ 64 := rfl
  rw [UInt64.toNat_add, UInt64.toNat_ofNat_of_lt' (by omega)]
  exact Nat.mod_eq_of_lt (by omega)

namespace Buffer

/-- How many generations an action opens. -/
def Action.opens : Action → Nat
  | .close | .startDeadline _ _ => 1
  | _ => 0

/-- The action may hand a timer to the buffer. -/
def Action.takes : Action → Bool
  | .install _ _ => true
  | _ => false

/-- An action that takes no timer leaves the buffer's timer and generation alone, or the
    timer is given up and the buffer has none. -/
theorem timer_act_cases (b : Buffer) {a : Action} (ha : a.takes = false) :
    ((b.act a).1.state.timer = b.state.timer
        ∧ (b.act a).1.state.generation = b.state.generation)
      ∨ ((b.act a).1.state.timer = none
        ∧ (∀ i, b.state.timer = some i → i ∈ (b.act a).2.released)
        ∧ (b.act a).1.state.generation = b.state.generation + UInt64.ofNat a.opens) := by
  obtain ⟨-, -, htimer, hgeneration⟩ := fields_act b a
  rw [htimer, hgeneration]
  cases a with
  | write chunk => exact Or.inl ⟨rfl, rfl⟩
  | read id call => exact Or.inl ⟨rfl, rfl⟩
  | close =>
    refine Or.inr ⟨rfl, fun i hi => ?_, rfl⟩
    exact List.mem_append_left _ (Option.mem_toList.mpr hi)
  | startDeadline now deadline =>
    refine Or.inr ⟨rfl, fun i hi => ?_, rfl⟩
    exact List.mem_append_left _ (Option.mem_toList.mpr hi)
  | install generation timer => cases ha
  | startRefused generation =>
    by_cases hcurrent : b.state.generation = generation
    · exact Or.inl (by simp [change, hcurrent])
    · exact Or.inl (by simp [change, hcurrent])
  | fire generation =>
    by_cases hcurrent : b.state.generation = generation
    · refine Or.inr ⟨by simp [change, hcurrent], fun i hi => ?_, ?_⟩
      · rw [act, fire, if_pos hcurrent]
        exact List.mem_append_left _ (Option.mem_toList.mpr hi)
      · simp [change, hcurrent, Action.opens]
    · exact Or.inl (by simp [change, hcurrent])
  | abandon =>
    refine Or.inr ⟨rfl, fun i hi => ?_, (UInt64.add_zero _).symm⟩
    exact Option.mem_toList.mpr hi

/-- A timer of the current generation is taken, unless the deadline was reached
    meanwhile, and a timer that is not taken is given up. -/
theorem install_cases (b : Buffer) (generation : UInt64) (i : Nat) :
    (b.state.generation = generation
        ∧ b.install generation i
          = ({ b with state := { b.state with timer := some i } },
            { events := [.deadlineArmed generation], released := b.state.timer.toList }))
      ∨ b.install generation i = (b, { released := [i] }) := by
  rw [install]
  split
  · rename_i hcurrent
    exact Or.inl ⟨hcurrent.1, rfl⟩
  · exact Or.inr rfl

end Buffer

/-! ## Timers by number -/

namespace Timer

theorem cell_stop_ne (x : Timer) : x.stop.2.cell ≠ .pending := by
  rcases x.stop_cases with ⟨-, hstop⟩ | ⟨hne, hstop⟩
  · simp [hstop]
  · rw [hstop]
    exact hne

theorem cell_of_wake {x : Timer} {now : Nat} (h : (x.wake now).cell = .pending) :
    x.cell = .pending := by
  rcases x.wake_cases now with ⟨-, hpending, -, -⟩ | ⟨-, hcell, -, -⟩
  · exact hpending
  · exact hcell.symm.trans h

theorem cell_leave (x : Timer) : x.leave.cell = x.cell := by
  obtain ⟨thread, hleave, -⟩ := x.leave_eq
  rw [hleave]

end Timer

namespace Session

/-- The buffer for which the timer of the given number was started, and the generation
    that its callback carries. -/
def origin? (s : Session) (i : Nat) : Option (Nat × UInt64) :=
  s.alarms[i]?.map fun a => (a.buffer, a.generation)

/-- The timer of the given number was neither stopped nor did it fire: its callback may
    still come. -/
def IsPending (s : Session) (i : Nat) : Prop :=
  ∃ a, s.alarms[i]? = some a ∧ a.timer.cell = .pending

/-- The session with one timer changed. -/
def onTimer (s : Session) (i : Nat) (g : Timer → Timer) : Session :=
  { s with alarms := s.alarms.modify i fun a => { a with timer := g a.timer } }

theorem getElem?_onTimer (s : Session) (i j : Nat) (g : Timer → Timer) :
    (s.onTimer i g).alarms[j]?
      = s.alarms[j]?.map fun a => if i = j then { a with timer := g a.timer } else a := by
  rw [onTimer, List.getElem?_modify]
  rfl

theorem set_eq_onTimer {s : Session} {i : Nat} {a : Alarm} (ha : s.alarms[i]? = some a)
    (g : Timer → Timer) :
    ({ s with alarms := s.alarms.set i { a with timer := g a.timer } } : Session)
      = s.onTimer i g := by
  rw [onTimer, List.modify_eq_set_getElem?, ha]
  rfl

@[simp] theorem origin?_onTimer (s : Session) (i j : Nat) (g : Timer → Timer) :
    (s.onTimer i g).origin? j = s.origin? j := by
  rw [origin?, origin?, getElem?_onTimer, Option.map_map]
  congr 1
  funext a
  simp only [Function.comp_apply]
  split <;> rfl

/-- The timers that may still come after one was changed are those before, unless the
    change makes one come that would not. -/
theorem isPending_of_onTimer {s : Session} {i j : Nat} {g : Timer → Timer}
    (h : (s.onTimer i g).IsPending j) :
    ∃ a, s.alarms[j]? = some a
      ∧ (if i = j then (g a.timer).cell = .pending else a.timer.cell = .pending) := by
  obtain ⟨a', ha', hcell⟩ := h
  rw [getElem?_onTimer, Option.map_eq_some_iff] at ha'
  obtain ⟨a, ha, rfl⟩ := ha'
  refine ⟨a, ha, ?_⟩
  split at hcell <;> simp_all

theorem isPending_of_onTimer_of_cell {s : Session} {i j : Nat} {g : Timer → Timer}
    (hg : ∀ t : Timer, (g t).cell = .pending → t.cell = .pending)
    (h : (s.onTimer i g).IsPending j) : s.IsPending j := by
  obtain ⟨a, ha, hcell⟩ := isPending_of_onTimer h
  split at hcell
  · exact ⟨a, ha, hg a.timer hcell⟩
  · exact ⟨a, ha, hcell⟩

/-! ## What the transitions do to timers and buffers -/

@[simp] theorem origin?_stopAlarms (s : Session) (ids : List Nat) (j : Nat) :
    (s.stopAlarms ids).origin? j = s.origin? j := by
  induction ids generalizing s with
  | nil => rfl
  | cons i rest ih => exact (ih (s.stopAlarm i)).trans (origin?_onTimer s i j fun t => t.stop.2)

/-- Timers that were stopped come no more. -/
theorem isPending_of_stopAlarms {s : Session} {ids : List Nat} {j : Nat}
    (h : (s.stopAlarms ids).IsPending j) : s.IsPending j ∧ j ∉ ids := by
  induction ids generalizing s with
  | nil => exact ⟨h, List.not_mem_nil⟩
  | cons i rest ih =>
    obtain ⟨hpending, hrest⟩ := ih (s := s.stopAlarm i) h
    obtain ⟨a, ha, hcell⟩ := isPending_of_onTimer (g := fun t => t.stop.2) hpending
    -- the first is over already, and stopping the others does not bring it back
    split at hcell
    · exact absurd hcell a.timer.cell_stop_ne
    · rename_i hij
      refine ⟨⟨a, ha, hcell⟩, ?_⟩
      rw [List.mem_cons, not_or]
      exact ⟨Ne.symm hij, hrest⟩

theorem onBuffer_of_getElem? {s : Session} {b : Nat} {buffer : Buffer}
    (h : s.buffers[b]? = some buffer) (f : Buffer → Buffer × Effects) :
    (s.onBuffer b f).1 = (s.put b (f buffer)).stopAlarms (f buffer).2.released := by
  rw [onBuffer, h]

theorem onBuffer_of_none {s : Session} {b : Nat} (h : s.buffers[b]? = none)
    (f : Buffer → Buffer × Effects) : (s.onBuffer b f).1 = s := by
  rw [onBuffer, h]

theorem buffers_onBuffer {s : Session} {b : Nat} {buffer : Buffer}
    (h : s.buffers[b]? = some buffer) (f : Buffer → Buffer × Effects) :
    (s.onBuffer b f).1.buffers = s.buffers.set b (f buffer).1 := by
  rw [onBuffer_of_getElem? h]
  obtain ⟨alarms, hstop⟩ := stopAlarms_eq (s.put b (f buffer)) (f buffer).2.released
  rw [hstop]
  rfl

theorem records_onBuffer {s : Session} {b : Nat} {buffer : Buffer}
    (h : s.buffers[b]? = some buffer) (f : Buffer → Buffer × Effects) :
    (s.onBuffer b f).1.records = s.records.modify b (· ++ (f buffer).2.events) := by
  rw [onBuffer_of_getElem? h]
  obtain ⟨alarms, hstop⟩ := stopAlarms_eq (s.put b (f buffer)) (f buffer).2.released
  rw [hstop]
  rfl

theorem getElem?_onBuffer_self {s : Session} {b : Nat} {buffer : Buffer}
    (h : s.buffers[b]? = some buffer) (f : Buffer → Buffer × Effects) :
    (s.onBuffer b f).1.buffers[b]? = some (f buffer).1 := by
  rw [buffers_onBuffer h, List.getElem?_set_self (List.getElem?_eq_some_iff.mp h).1]

theorem getElem?_onBuffer_ne {s : Session} {b x : Nat} (hx : b ≠ x)
    (f : Buffer → Buffer × Effects) : (s.onBuffer b f).1.buffers[x]? = s.buffers[x]? := by
  cases h : s.buffers[b]? with
  | none => rw [onBuffer_of_none h]
  | some buffer => rw [buffers_onBuffer h, List.getElem?_set_ne hx]

/-- After an operation on a buffer there is what the operation made of it, and the other
    buffers are as they were. -/
theorem getElem?_onBuffer_cases {s : Session} {b x : Nat} {buffer y : Buffer}
    {f : Buffer → Buffer × Effects} (hb : s.buffers[b]? = some buffer)
    (hy : (s.onBuffer b f).1.buffers[x]? = some y) :
    (b = x ∧ y = (f buffer).1) ∨ (b ≠ x ∧ s.buffers[x]? = some y) := by
  by_cases hx : b = x
  · subst hx
    exact Or.inl ⟨rfl, Option.some.inj (hy.symm.trans (getElem?_onBuffer_self hb f))⟩
  · exact Or.inr ⟨hx, (getElem?_onBuffer_ne hx f).symm.trans hy⟩

@[simp] theorem origin?_onBuffer (s : Session) (b : Nat) (f : Buffer → Buffer × Effects)
    (i : Nat) : (s.onBuffer b f).1.origin? i = s.origin? i := by
  cases h : s.buffers[b]? with
  | none => rw [onBuffer_of_none h]
  | some buffer =>
    rw [onBuffer_of_getElem? h, origin?_stopAlarms]
    rfl

theorem isPending_of_onBuffer {s : Session} {b i : Nat} {f : Buffer → Buffer × Effects}
    (h : (s.onBuffer b f).1.IsPending i) :
    s.IsPending i ∧ ∀ buffer, s.buffers[b]? = some buffer → i ∉ (f buffer).2.released := by
  cases hb : s.buffers[b]? with
  | none =>
    rw [onBuffer_of_none hb] at h
    exact ⟨h, fun _ hnone => by cases hnone⟩
  | some buffer =>
    rw [onBuffer_of_getElem? hb] at h
    obtain ⟨hpending, hfree⟩ := isPending_of_stopAlarms h
    refine ⟨hpending, fun x hx => ?_⟩
    obtain rfl : buffer = x := Option.some.inj hx
    exact hfree

end Session

end StreamBuffer
