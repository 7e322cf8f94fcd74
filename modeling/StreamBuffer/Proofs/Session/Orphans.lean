/-
  StreamBuffer.Proofs.Session.Orphans

  No timer is left behind. Whenever no change of a deadline is in flight, each timer whose
  callback may still come is the installed timer of one buffer, which is alive and of the
  timer's generation, and no buffer has two of them (`no_orphan_timers`).

  The books say which buffer a timer is installed in (`Sound`). That a buffer with a timer
  is alive is kept apart from them (`Attended`): readers end without looking at timers, and
  the last who holds on to a buffer gives its timer up.
-/
import StreamBuffer.Proofs.Session.Ownership

namespace StreamBuffer

namespace Session

variable {s t : Session} {l : List (Arming × Nat)} {n : Nat}

/-! ## Buffers with a timer are alive -/

theorem isAlive_iff {b : Nat} :
    s.isAlive b = true
      ↔ some b ∈ s.handles ∨ (∃ a ∈ s.armings, a.buffer = b) ∨ s.waitingIds b ≠ [] := by
  simp only [isAlive, Bool.or_eq_true, List.contains_iff_mem, List.any_eq_true, beq_iff_eq,
    Bool.not_eq_true', List.isEmpty_eq_false_iff, or_assoc]

/-- If the buffer has a timer, something still holds on to it. -/
def Attended (s : Session) (b : Nat) : Prop :=
  ∀ buffer i, s.buffers[b]? = some buffer → buffer.state.timer = some i → s.isAlive b = true

namespace Attended

/-- Whoever has a handle holds on to its buffer. -/
theorem of_handle {b : Nat} (hb : some b ∈ s.handles) : s.Attended b :=
  fun _ _ _ _ => isAlive_iff.mpr (Or.inl hb)

theorem of_no_timer {b : Nat}
    (h : ∀ buffer, s.buffers[b]? = some buffer → buffer.state.timer = none) :
    s.Attended b := by
  intro buffer i hb htimer
  rw [h buffer hb] at htimer
  cases htimer

/-- The buffer is as it was, and what held on to it still does. -/
theorem of_getElem?_eq {b : Nat} (h : s.Attended b) (hbuffer : t.buffers[b]? = s.buffers[b]?)
    (hhandles : some b ∈ s.handles → some b ∈ t.handles)
    (harmings : ∀ a ∈ s.armings, a.buffer = b → a ∈ t.armings) : t.Attended b := by
  intro buffer i hb htimer
  have hwaiting : t.waitingIds b = s.waitingIds b := by
    rw [waitingIds, waitingIds, hbuffer]
  rw [hbuffer] at hb
  rw [isAlive_iff, hwaiting]
  rcases isAlive_iff.mp (h buffer i hb htimer) with hhandle | ⟨a, ha, hab⟩ | hwaits
  · exact Or.inl (hhandles hhandle)
  · exact Or.inr (Or.inl ⟨a, harmings a ha hab, hab⟩)
  · exact Or.inr (Or.inr hwaits)

/-- An operation that leaves the buffer as it was. -/
theorem onBuffer_of_eq {b x : Nat} {f : Buffer → Buffer × Effects} (h : s.Attended x)
    (hbuffer : (s.onBuffer b f).1.buffers[x]? = s.buffers[x]?) :
    (s.onBuffer b f).1.Attended x := by
  refine h.of_getElem?_eq hbuffer ?_ ?_
  · rw [handles_onBuffer]
    exact id
  · rw [armings_onBuffer]
    exact fun a ha _ => ha

/-- An operation on another buffer. -/
theorem onBuffer_ne {b x : Nat} (h : s.Attended x) (hx : b ≠ x)
    (f : Buffer → Buffer × Effects) : (s.onBuffer b f).1.Attended x :=
  h.onBuffer_of_eq (getElem?_onBuffer_ne hx f)

/-- An operation through a handle. -/
theorem onBuffer_of_handle {b : Nat} (h : ∀ x, s.Attended x) (hb : some b ∈ s.handles)
    (f : Buffer → Buffer × Effects) (x : Nat) : (s.onBuffer b f).1.Attended x := by
  by_cases hx : b = x
  · refine of_handle ?_
    rw [handles_onBuffer, ← hx]
    exact hb
  · exact (h x).onBuffer_ne hx f

/-- An operation after which its buffer has no timer, or is as it was. -/
theorem onBuffer_self {b : Nat} {f : Buffer → Buffer × Effects}
    (hf : ∀ buffer, (f buffer).1.state.timer = none
      ∨ ((f buffer).1 = buffer ∧ s.Attended b)) : (s.onBuffer b f).1.Attended b := by
  cases hold : s.buffers[b]? with
  | none =>
    rw [onBuffer_of_none hold]
    exact of_no_timer fun buffer hb => by cases hold.symm.trans hb
  | some old =>
    have hself := getElem?_onBuffer_self hold f
    rcases hf old with hnone | ⟨hsame, h⟩
    · refine of_no_timer fun buffer hb => ?_
      obtain rfl := Option.some.inj (hself.symm.trans hb)
      exact hnone
    · rw [hsame, ← hold] at hself
      exact h.onBuffer_of_eq hself

/-- A buffer that nothing holds on to has no timer once it is retired. -/
theorem retire {b : Nat} (h : ∀ x, b ≠ x → s.Attended x) (x : Nat) :
    (s.retire b).Attended x := by
  rw [Session.retire]
  split
  · rename_i halive
    by_cases hx : b = x
    · subst hx
      exact fun _ _ _ _ => halive
    · exact h x hx
  · by_cases hx : b = x
    · subst hx
      exact onBuffer_self fun buffer => Or.inl rfl
    · exact (h x hx).onBuffer_ne hx _

/-- The end of a change of a deadline, whatever its second half does to the buffer. -/
theorem conclude (h : ∀ x, s.Attended x) (a : Arming) (f : Buffer → Buffer × Effects)
    (x : Nat) : (s.conclude a f).Attended x := by
  refine retire (fun x hx => ?_) x
  refine ((h x).onBuffer_ne hx f).of_getElem?_eq rfl id fun a' ha' hbuffer => ?_
  refine (List.mem_erase_of_ne ?_).mpr ha'
  rintro rfl
  exact hx hbuffer

/-- When the callback runs, the buffer has no timer afterwards, or it is as it was. -/
theorem wakeAlarm (h : ∀ x, s.Attended x) (reading i x : Nat) :
    (s.wakeAlarm reading i).1.Attended x := by
  rw [Session.wakeAlarm]
  split
  · exact h x
  · rename_i alarm hi
    dsimp only
    split
    · let woken : Session := { s with
        alarms := s.alarms.set i { alarm with timer := alarm.timer.wake reading } }
      have hwoken : ∀ x, woken.Attended x := h
      have hfired : (woken.onBuffer alarm.buffer (·.fire alarm.generation)).1.Attended x := by
        by_cases hx : alarm.buffer = x
        · subst hx
          refine onBuffer_self fun buffer => ?_
          -- the callback of a generation that is over does nothing
          obtain ⟨-, -, htimer, -⟩ := buffer.fields_act (.fire alarm.generation)
          by_cases hcurrent : buffer.state.generation = alarm.generation
          · exact Or.inl (htimer.trans (by rw [Buffer.change, if_pos hcurrent]))
          · exact Or.inr ⟨by rw [Buffer.fire, if_neg hcurrent], hwoken _⟩
        · exact (hwoken x).onBuffer_ne hx _
      exact hfired.of_getElem?_eq rfl id fun a ha _ => ha
    · exact h x
    · exact h x

/-- A new buffer comes with a handle, and the others are as they were. -/
theorem create (h : ∀ x, s.Attended x) (c : Config) (x : Nat) :
    (s.create c).1.Attended x := by
  by_cases hlt : x < s.buffers.length
  · refine (h x).of_getElem?_eq (List.getElem?_append_left hlt) ?_ fun a ha _ => ha
    exact fun hx => List.mem_append_left _ hx
  · refine of_no_timer fun buffer hb => ?_
    have hnew := (List.getElem?_append_right (Nat.le_of_not_lt hlt)).symm.trans hb
    rw [List.mem_singleton.mp (List.mem_of_getElem? hnew)]
    rfl

/-- A handle is dropped; those to other buffers stay. -/
theorem drop (h : ∀ x, s.Attended x) {handle b : Nat} (hb : s.bufferOf? handle = some b)
    (x : Nat) : (s.drop handle b).Attended x := by
  refine retire (fun x hx => ?_) x
  refine (h x).of_getElem?_eq rfl (fun hmem => ?_) fun a ha _ => ha
  obtain ⟨place, hplace⟩ := List.mem_iff_getElem?.mp hmem
  refine List.mem_of_getElem? (i := place) ?_
  rw [List.getElem?_set_ne, hplace]
  rintro rfl
  rw [bufferOf?, hplace] at hb
  exact hx (Option.some.inj hb).symm

/-- The first half of a change, through a handle. -/
theorem startDeadline (h : ∀ x, s.Attended x) {b : Nat} (hb : some b ∈ s.handles)
    (lead : Option Lead) (x : Nat) : (s.startDeadline b lead).1.Attended x := by
  have hfirst := onBuffer_of_handle h hb
    (·.startDeadline s.now (lead.map (Lead.instant s.now))) x
  have hcases := s.startDeadline_cases b lead
  dsimp only at hcases
  rcases hcases with ⟨hwhole, -⟩ | ⟨a, -, -, -, -, hinFlight, -⟩
  · rw [hwhole]
    exact hfirst
  · rw [hinFlight]
    exact hfirst.of_getElem?_eq rfl id fun a' ha' _ => List.mem_cons_of_mem a ha'

/-- After every turn, whoever has a timer is still alive. -/
theorem turn {p q : Point} (h : ∀ x, p.session.Attended x) (hturn : Turn p q) (x : Nat) :
    q.session.Attended x := by
  cases hturn with
  | create s l n c => exact create h c x
  | share l n hb =>
    exact (h x).of_getElem?_eq rfl (fun hx => List.mem_append_left _ hx) fun a ha _ => ha
  | drop l n hb => exact drop h hb x
  | write l n hb chunk => exact onBuffer_of_handle h hb _ x
  | @read s b l n hb call =>
    exact onBuffer_of_handle (s := { s with started := s.started + 1 }) h hb _ x
  | close l n hb => exact onBuffer_of_handle h hb _ x
  | startDeadline l n hb lead => exact startDeadline h hb lead x
  | startThread n ha hnew => exact h x
  | refuse n ha hnew => exact conclude h _ _ x
  | handOver s n ha => exact conclude h _ _ x
  | wake s l n reading i => exact wakeAlarm h reading i x
  | tick s l n => exact h x

end Attended

/-! ## No timer is left behind -/

theorem Turn.opened_le {p q : Point} (h : Turn p q) : p.opened ≤ q.opened := by
  cases h <;> simp

/-- However many turns there were, and in whatever order, the books are in order, and
    buffers with a timer are alive. -/
theorem sound_of_turns {c : Config} {p : Point} (h : Turns (.start c) p)
    (hopened : p.opened < UInt64.size) :
    p.session.Sound p.adrift p.opened ∧ ∀ x, p.session.Attended x := by
  induction h with
  | refl =>
    have hbuffer : ∀ x, (Point.start c).session.Attended x :=
      Attended.create (s := {}) (fun x => .of_no_timer fun _ hnone => by cases hnone) c
    exact ⟨.start c, hbuffer⟩
  | @tail p q _ hturn ih =>
    have hle := hturn.opened_le
    obtain ⟨hsound, hattended⟩ := ih (by omega)
    exact ⟨hsound.turn hturn hopened, fun x => .turn hattended hturn x⟩

/-- The timer, started as `a`, is the installed timer of one buffer, which is alive and of
    the timer's generation. -/
structure Owned (s : Session) (i : Nat) (a : Alarm) : Prop where
  installed : ∃ buffer, s.buffers[a.buffer]? = some buffer ∧ buffer.state.timer = some i
    ∧ buffer.state.generation = a.generation
  buffer_eq : ∀ b buffer, s.buffers[b]? = some buffer → buffer.state.timer = some i → b = a.buffer
  isAlive : s.isAlive a.buffer = true

/-- Each timer whose callback may still come is owned, by a buffer with a handle or with a
    reader that waits, and no buffer owns two of them. -/
def NoOrphans (s : Session) : Prop :=
  ∀ i a, s.alarms[i]? = some a → a.timer.cell = .pending →
    s.Owned i a ∧ (some a.buffer ∈ s.handles ∨ s.waitingIds a.buffer ≠ [])
      ∧ ∀ j a', s.alarms[j]? = some a' → a'.timer.cell = .pending → a'.buffer = a.buffer → j = i

/-- An installed timer was started for its buffer, and for the generation of this. -/
theorem Sound.eq_of_installed (h : s.Sound l n) {i b : Nat} {a : Alarm} {buffer : Buffer}
    (ha : s.alarms[i]? = some a) (hb : s.buffers[b]? = some buffer)
    (htimer : buffer.state.timer = some i) :
    b = a.buffer ∧ buffer.state.generation = a.generation := by
  have horigin := h.installed hb htimer
  rw [origin?, ha, Option.map_some, Option.some.injEq, Prod.mk.injEq] at horigin
  exact ⟨horigin.1.symm, horigin.2.symm⟩

/-- A timer that may still come is owned, or its change is still to hand it over. -/
theorem Sound.owned_or_adrift (h : s.Sound l n) (hattended : ∀ x, s.Attended x) {i : Nat}
    {a : Alarm} (ha : s.alarms[i]? = some a) (hcell : a.timer.cell = .pending) :
    s.Owned i a ∨ ∃ change, (change, i) ∈ l := by
  rcases h.pending ⟨a, ha, hcell⟩ with ⟨b, buffer, hb, htimer⟩ | hadrift
  · obtain ⟨rfl, hgeneration⟩ := h.eq_of_installed ha hb htimer
    refine Or.inl ⟨⟨buffer, hb, htimer, hgeneration⟩, fun b' buffer' hb' htimer' => ?_, ?_⟩
    · exact (h.eq_of_installed ha hb' htimer').1
    · exact hattended _ buffer i hb htimer
  · exact Or.inr hadrift

/-- Without a change in flight no timer is adrift, and none is left behind. -/
theorem Sound.noOrphans (h : s.Sound l n) (hattended : ∀ x, s.Attended x)
    (hidle : s.armings = []) : s.NoOrphans := by
  have howned : ∀ {i : Nat} {a : Alarm}, s.alarms[i]? = some a → a.timer.cell = .pending →
      s.Owned i a := by
    intro i a ha hcell
    refine (h.owned_or_adrift hattended ha hcell).resolve_right ?_
    rintro ⟨change, hadrift⟩
    have hmem := (h.adrift hadrift).1
    rw [hidle] at hmem
    cases hmem
  intro i a ha hcell
  have hi := howned ha hcell
  obtain ⟨buffer, hb, htimer, -⟩ := hi.installed
  refine ⟨hi, ?_, fun j a' ha' hcell' hbuffer => ?_⟩
  · rcases isAlive_iff.mp hi.isAlive with hhandle | ⟨a', ha', -⟩ | hwaits
    · exact Or.inl hhandle
    · rw [hidle] at ha'
      cases ha'
    · exact Or.inr hwaits
  · obtain ⟨buffer', hb', htimer', -⟩ := (howned ha' hcell').installed
    rw [hbuffer, hb] at hb'
    obtain rfl := Option.some.inj hb'
    exact Option.some.inj (htimer'.symm.trans htimer)

/-- No timer is left behind, as long as no more generations were opened than there are.
    Whatever turns there were, and in whatever order, a timer whose callback may still come
    is owned, unless the change that started it is still to hand it over; and where no
    change of a deadline is in flight, none is. So it is at every boundary between the
    steps of a list of operations, with any operations inside a change of a deadline. -/
theorem no_orphan_timers (c : Config) :
    (∀ p, Turns (.start c) p → p.opened < UInt64.size →
        (∀ i a, p.session.alarms[i]? = some a → a.timer.cell = .pending →
          p.session.Owned i a ∨ ∃ change, (change, i) ∈ p.adrift)
        ∧ (p.session.armings = [] → p.session.NoOrphans))
      ∧ ∀ ops seen underway t, Boundary (({} : Session).create c).1 ops seen underway t →
          Op.generationsAll ops < UInt64.size → t.armings = [] → t.NoOrphans := by
  refine ⟨fun p hp hopened => ?_, fun ops seen underway t hboundary hopened hidle => ?_⟩
  · obtain ⟨hsound, hattended⟩ := sound_of_turns hp hopened
    exact ⟨fun i a => hsound.owned_or_adrift hattended, hsound.noOrphans hattended⟩
  · obtain ⟨m, hm, hway⟩ := hboundary.ways 0
    have hlt : m < UInt64.size := by omega
    obtain ⟨hsound, hattended⟩ := sound_of_turns hway hlt
    exact hsound.noOrphans hattended hidle

/-- A change inside another supersedes it, and the last handle to a second buffer is
    dropped inside a change of its own: one timer of three may still come. -/
theorem no_orphan_timers_superseded :
    let ops : List Op :=
      [.create 0 {}, .deadline 0 (some .far) [.deadline 0 (some .far) [] .prompt] .prompt,
        .deadline 1 (some .far) [.drop 1] .prompt]
    let s := (Op.runAll ops (({} : Session).create {}).1).1
    s.alarms.map (fun a => a.timer.cell) = [.pending, .stopped, .stopped]
      ∧ Op.generationsAll ops < UInt64.size ∧ s.armings = [] ∧ s.NoOrphans := by
  intro ops s
  have hopened : Op.generationsAll ops < UInt64.size := by decide +kernel
  have hidle : s.armings = [] := Op.armings_runAll ops _
  refine ⟨by decide +kernel, hopened, hidle, ?_⟩
  exact (no_orphan_timers {}).2 ops _ _ s (boundary_runAll _ ops) hopened hidle

end Session

end StreamBuffer
