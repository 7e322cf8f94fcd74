/-
  StreamBuffer.Proofs.Timer.Exclusion

  Of the stopping of a timer and the running of its callback exactly one comes about,
  whatever the order in which owners and threads get at the timer.

  What was noted of a timer settles whether its callback runs; `Timer.Fits` ties the
  notes to the timer: its cell is pending as long as nothing is settled, a thread whose
  cell is pending is still asleep, and the number of runs is that of the entries noted,
  one if the cell says fired and none if not. Every transition of a timer keeps this
  (`Fits.stop`, `Fits.wake`, `Fits.leave`), what happens to other timers does not matter
  (`Fits.other`), and so it holds over every run (`consistent_run`).
-/
import StreamBuffer.Proofs.Timer.History

namespace StreamBuffer

/-! ## Notes about a timer -/

namespace TimerTable.Note

/-- A note about another timer says nothing of this one. -/
theorem eq_false_of_timer_ne {z : Note} {i : Nat} (h : z.timer ≠ i) :
    z.settles i = false ∧ z.enters i = false ∧ z.keeps i = false := by
  cases z with
  | answered j kept =>
    have hj : (j == i) = false := beq_false_of_ne h
    exact ⟨by rw [settles, hj, Bool.false_and], rfl, by rw [keeps, hj, Bool.false_and]⟩
  | letGo j => exact ⟨beq_false_of_ne h, rfl, rfl⟩
  | entered j now => exact ⟨beq_false_of_ne h, beq_false_of_ne h, rfl⟩

/-- To keep a callback from running settles it, and so does its entry. -/
theorem settles_of_keeps {z : Note} {i : Nat} (h : z.keeps i = true) : z.settles i = true := by
  cases z with
  | answered j kept => exact h
  | letGo j => cases h
  | entered j now => cases h

theorem settles_of_enters {z : Note} {i : Nat} (h : z.enters i = true) : z.settles i = true := by
  cases z with
  | answered j kept => cases h
  | letGo j => cases h
  | entered j now => exact h

end TimerTable.Note

namespace Timer

open TimerTable (Note)

/-- The timer of number `i` is as the notes say. -/
structure Fits (x : Timer) (i : Nat) (notes : List Note) : Prop where
  pending_iff : x.cell = .pending ↔ ∀ z ∈ notes, z.settles i = false
  waiting_of_pending : x.cell = .pending → x.thread = .waiting
  runs_eq : x.runs = notes.countP (Note.enters i)
  runs_cases : (x.cell = .fired ∧ x.runs = 1) ∨ (x.cell ≠ .fired ∧ x.runs = 0)
  countP_keeps_le : notes.countP (Note.keeps i) ≤ 1
  hasCome : ∀ now, Note.entered i now ∈ notes → x.deadline.hasCome now = true

/-- A timer that nothing was noted of yet. -/
theorem fits_new {i : Nat} {notes : List Note} (h : ∀ z ∈ notes, z.timer ≠ i)
    (deadline : Instant) : Fits { deadline } i notes := by
  have hsettles : ∀ z ∈ notes, z.settles i = false :=
    fun z hz => (Note.eq_false_of_timer_ne (h z hz)).1
  have henters : notes.countP (Note.enters i) = 0 :=
    List.countP_eq_zero.mpr fun z hz => by simp [(Note.eq_false_of_timer_ne (h z hz)).2.1]
  have hkeeps : notes.countP (Note.keeps i) = 0 :=
    List.countP_eq_zero.mpr fun z hz => by simp [(Note.eq_false_of_timer_ne (h z hz)).2.2]
  refine ⟨⟨fun _ => hsettles, fun _ => rfl⟩, fun _ => rfl, henters.symm, Or.inr ⟨by simp, rfl⟩,
    by omega, ?_⟩
  intro now hnow
  exact absurd rfl (h _ hnow)

namespace Fits

variable {x : Timer} {i : Nat} {notes : List Note}

/-- What is noted of another timer does not matter. -/
theorem other (h : x.Fits i notes) {z : Note} (hz : z.timer ≠ i) : x.Fits i (notes ++ [z]) := by
  obtain ⟨hsettles, henters, hkeeps⟩ := Note.eq_false_of_timer_ne hz
  refine ⟨?_, h.waiting_of_pending, ?_, h.runs_cases, ?_, ?_⟩
  · simp only [h.pending_iff, List.forall_mem_append, List.forall_mem_singleton, hsettles, and_true]
  · simp [h.runs_eq, henters]
  · simp [hkeeps, h.countP_keeps_le]
  · intro now hnow
    rcases List.mem_append.mp hnow with hnow | hnow
    · exact h.hasCome now hnow
    · rw [List.mem_singleton] at hnow
      subst hnow
      exact absurd rfl hz

/-- A timer whose cell and number of runs stay fits the same notes. -/
theorem of_eq (h : x.Fits i notes) {x' : Timer} (hcell : x'.cell = x.cell)
    (hruns : x'.runs = x.runs) (hdeadline : x'.deadline = x.deadline)
    (hthread : x.cell = .pending → x.thread = .waiting → x'.thread = .waiting) :
    x'.Fits i notes := by
  refine ⟨?_, ?_, ?_, ?_, h.countP_keeps_le, ?_⟩
  · rw [hcell]
    exact h.pending_iff
  · rw [hcell]
    exact fun hp => hthread hp (h.waiting_of_pending hp)
  · rw [hruns]
    exact h.runs_eq
  · rw [hcell, hruns]
    exact h.runs_cases
  · rw [hdeadline]
    exact h.hasCome

/-- Nobody has kept the callback of a pending timer from running. -/
theorem countP_keeps_eq_zero (h : x.Fits i notes) (hp : x.cell = .pending) :
    notes.countP (Note.keeps i) = 0 := by
  refine List.countP_eq_zero.mpr fun z hz hkeeps => ?_
  have hnot := h.pending_iff.mp hp z hz
  rw [Note.settles_of_keeps hkeeps] at hnot
  cases hnot

/-- A note that enters nothing keeps the number of entries. -/
theorem stop (h : x.Fits i notes) {z : Note} (henters : z.enters i = false)
    (hentered : ∀ now, z ≠ .entered i now) (hsettles : x.cell = .pending → z.settles i = true)
    (hkeeps : x.cell ≠ .pending → z.keeps i = false) : x.stop.2.Fits i (notes ++ [z]) := by
  have hcount : (notes ++ [z]).countP (Note.enters i) = notes.countP (Note.enters i) := by
    simp [henters]
  have hcome : ∀ now, Note.entered i now ∈ notes ++ [z] → x.deadline.hasCome now = true := by
    intro now hnow
    rcases List.mem_append.mp hnow with hnow | hnow
    · exact h.hasCome now hnow
    · exact absurd (List.mem_singleton.mp hnow).symm (hentered now)
  rcases stop_cases x with ⟨hp, hstop⟩ | ⟨hp, hstop⟩
  · -- in time: the note settles it, and is the first to keep the callback from running
    rw [hstop]
    have hzero := h.countP_keeps_eq_zero hp
    have hruns : x.runs = 0 := by
      rcases h.runs_cases with ⟨hfired, -⟩ | ⟨-, hruns⟩
      · rw [hp] at hfired
        cases hfired
      · exact hruns
    refine ⟨⟨fun hc => (by cases hc), fun hall => ?_⟩, fun hc => (by cases hc), ?_,
      Or.inr ⟨by simp, hruns⟩, ?_, hcome⟩
    · have hnot := hall z (by simp)
      rw [hsettles hp] at hnot
      cases hnot
    · rw [hcount]
      exact h.runs_eq
    · rw [List.countP_append, hzero, Nat.zero_add, List.countP_singleton]
      split <;> omega
  · rw [hstop]
    refine ⟨⟨fun hc => absurd hc hp, fun hall => ?_⟩, fun hc => absurd hc hp, ?_, h.runs_cases, ?_,
      hcome⟩
    · exact h.pending_iff.mpr fun y hy => hall y (List.mem_append_left _ hy)
    · rw [hcount]
      exact h.runs_eq
    · rw [List.countP_append, List.countP_singleton, hkeeps hp]
      exact h.countP_keeps_le

/-- The answer to a stop is that nothing was settled before. -/
theorem stop_fst (h : x.Fits i notes) :
    x.stop.1 = decide (∀ z ∈ notes, z.settles i = false) := by
  rcases stop_cases x with ⟨hp, hstop⟩ | ⟨hp, hstop⟩
  · rw [hstop, decide_eq_true (h.pending_iff.mp hp)]
  · rw [hstop, decide_eq_false fun hall => hp (h.pending_iff.mpr hall)]

/-- A thread's waking, with the note of an entry if there was one. -/
theorem wake (h : x.Fits i notes) (now : Nat) :
    ((x.wake now).runs = x.runs ∧ (x.wake now).Fits i notes)
      ∨ ((x.wake now).runs ≠ x.runs ∧ (∀ z ∈ notes, z.settles i = false)
        ∧ (x.wake now).Fits i (notes ++ [.entered i now])) := by
  rcases wake_cases x now with ⟨-, hp, hcome, hwake⟩ | ⟨-, hcell, hruns, hthread⟩
  · right
    have hzero := h.countP_keeps_eq_zero hp
    have hruns : x.runs = 0 := by
      rcases h.runs_cases with ⟨hfired, -⟩ | ⟨-, hruns⟩
      · rw [hp] at hfired
        cases hfired
      · exact hruns
    have hself : Note.enters i (.entered i now) = true := beq_self_eq_true i
    have hcount := h.runs_eq
    rw [hwake]
    refine ⟨by simp, h.pending_iff.mp hp, ?_⟩
    refine ⟨⟨fun hc => (by cases hc), fun hall => ?_⟩, fun hc => (by cases hc), ?_,
      Or.inl ⟨rfl, by simp [hruns]⟩, ?_, ?_⟩
    · have hnot := hall (.entered i now) (by simp)
      rw [Note.settles_of_enters hself] at hnot
      cases hnot
    · rw [List.countP_append, List.countP_singleton, if_pos hself, ← hcount]
    · have hkeeps : Note.keeps i (.entered i now) = false := rfl
      simp [hzero, hkeeps]
    · intro now' hnow
      rcases List.mem_append.mp hnow with hnow | hnow
      · exact h.hasCome now' hnow
      · cases List.mem_singleton.mp hnow
        exact hcome
  · left
    refine ⟨hruns, h.of_eq hcell hruns (x.deadline_wake now) ?_⟩
    intro hp hwaiting
    rw [hthread hp]
    exact hwaiting

theorem leave (h : x.Fits i notes) : x.leave.Fits i notes := by
  obtain ⟨thread, hleave, hthread⟩ := leave_eq x
  rw [hleave]
  exact h.of_eq rfl rfl rfl fun _ => hthread

end Fits

/-- Two states of a timer that differ in the thread's place at most. -/
def AgreesWith (x y : Timer) : Prop :=
  x.cell = y.cell ∧ x.deadline = y.deadline ∧ x.runs = y.runs

/-- Once it is settled whether the callback runs, a stop changes nothing, and a wake the
    thread's place at most. -/
theorem settled_stop {x : Timer} (h : x.cell ≠ .pending) : x.stop.2.AgreesWith x := by
  rcases stop_cases x with ⟨hp, -⟩ | ⟨-, hstop⟩
  · exact absurd hp h
  · rw [hstop]
    exact ⟨rfl, rfl, rfl⟩

theorem settled_wake {x : Timer} (h : x.cell ≠ .pending) (now : Nat) :
    (x.wake now).AgreesWith x := by
  rcases wake_cases x now with ⟨-, hp, -⟩ | ⟨-, hcell, hruns, -⟩
  · exact absurd hp h
  · exact ⟨hcell, x.deadline_wake now, hruns⟩

theorem leave_agreesWith (x : Timer) : x.leave.AgreesWith x := by
  obtain ⟨thread, hleave, -⟩ := leave_eq x
  rw [hleave]
  exact ⟨rfl, rfl, rfl⟩

end Timer

namespace TimerTable

/-! ## Tables and their notes -/

/-- What a note says, with those before it: a callback is entered, and a stop is in time,
    only if nothing was settled before. -/
def Note.Follows : Note → List Note → Prop
  | .answered i kept, before => kept = true ↔ ∀ z ∈ before, z.settles i = false
  | .entered i _, before => ∀ z ∈ before, z.settles i = false
  | .letGo _, _ => True

/-- The timers of a table are as the notes say, and the notes follow each other. -/
structure Consistent (notes : List Note) (t : TimerTable) : Prop where
  fits : ∀ i x, t.timer? i = some x → x.Fits i notes
  known : ∀ z ∈ notes, ∃ x, t.timer? z.timer = some x
  follows : ∀ before z after, notes = before ++ z :: after → z.Follows before

theorem consistent_nil : Consistent [] {} := by
  refine ⟨?_, ?_, ?_⟩
  · intro i x hx
    cases hx
  · intro z hz
    cases hz
  · intro before z after h
    simp at h

namespace Consistent

variable {notes : List Note} {t t' : TimerTable}

/-- One timer changed, and nothing was noted. -/
theorem of_changes (h : Consistent notes t) {i : Nat} {x : Timer} (hchanges : t.Changes t' i x)
    (hx : x.Fits i notes) : Consistent notes t' := by
  refine ⟨?_, ?_, h.follows⟩
  · intro j y hy
    by_cases hij : i = j
    · subst hij
      obtain rfl : x = y := Option.some.inj (hchanges.self.symm.trans hy)
      exact hx
    · rw [hchanges.others j hij] at hy
      exact h.fits j y hy
  · intro z hz
    by_cases hij : i = z.timer
    · exact ⟨x, hij ▸ hchanges.self⟩
    · rw [hchanges.others _ hij]
      exact h.known z hz

/-- One timer changed, and that was noted. -/
theorem noted (h : Consistent notes t) {i : Nat} {x : Timer} {z : Note}
    (hchanges : t.Changes t' i x) (hz : z.timer = i) (hx : x.Fits i (notes ++ [z]))
    (hfollows : z.Follows notes) : Consistent (notes ++ [z]) t' := by
  refine ⟨?_, ?_, ?_⟩
  · intro j y hy
    by_cases hij : i = j
    · subst hij
      obtain rfl : x = y := Option.some.inj (hchanges.self.symm.trans hy)
      exact hx
    · rw [hchanges.others j hij] at hy
      exact (h.fits j y hy).other (hz ▸ hij)
  · intro y hy
    by_cases hij : i = y.timer
    · exact ⟨x, hij ▸ hchanges.self⟩
    · rw [hchanges.others _ hij]
      rcases List.mem_append.mp hy with hy | hy
      · exact h.known y hy
      · rw [List.mem_singleton.mp hy] at hij
        exact absurd hz.symm hij
  · -- the new note is the last one, and those before it follow each other
    intro before y after heq
    rcases List.eq_nil_or_concat after with rfl | ⟨rest, last, rfl⟩
    · obtain ⟨rfl, hlast⟩ := List.append_inj' heq rfl
      cases hlast
      exact hfollows
    · rw [List.concat_eq_append, ← List.cons_append, ← List.append_assoc] at heq
      obtain ⟨hfront, -⟩ := List.append_inj' heq rfl
      exact h.follows before y rest hfront

/-- No note is about a timer that is not there. -/
theorem timer_ne (h : Consistent notes t) {i : Nat} (hnew : t.timer? i = none) :
    ∀ z ∈ notes, z.timer ≠ i := by
  rintro z hz rfl
  obtain ⟨x, hx⟩ := h.known z hz
  rw [hnew] at hx
  cases hx

theorem step (h : Consistent notes t) {note : Option Note} (hstep : Step t t' note) :
    Consistent (notes ++ note.toList) t' := by
  cases hstep with
  | quiet hsame =>
    rw [Option.toList_none, List.append_nil]
    refine ⟨?_, ?_, h.follows⟩
    · intro i x hx
      rw [hsame] at hx
      exact h.fits i x hx
    · intro z hz
      rw [hsame]
      exact h.known z hz
  | started hnew hchanges =>
    rw [Option.toList_none, List.append_nil]
    exact h.of_changes hchanges (Timer.fits_new (h.timer_ne hnew) _)
  | @stopped i x hx hchanges =>
    have hfits := h.fits i x hx
    have hself : (i == i) = true := beq_self_eq_true i
    refine h.noted hchanges rfl ?_ ?_
    · refine hfits.stop rfl (fun now => by simp) (fun hp => ?_) fun hp => ?_
      · rcases x.stop_cases with ⟨-, hstop⟩ | ⟨hnot, -⟩
        · simp [Note.settles, hstop]
        · exact absurd hp hnot
      · rcases x.stop_cases with ⟨hyes, -⟩ | ⟨-, hstop⟩
        · exact absurd hyes hp
        · simp [Note.keeps, hstop]
    · show x.stop.1 = true ↔ _
      rw [hfits.stop_fst, decide_eq_true_eq]
  | @dropped i x hx hchanges =>
    refine h.noted hchanges rfl ?_ trivial
    exact (h.fits i x hx).stop rfl (fun now => by simp) (fun _ => beq_self_eq_true i) fun _ => rfl
  | @woke i x hx hchanges =>
    rcases (h.fits i x hx).wake t.now with ⟨hruns, hfits⟩ | ⟨hruns, hopen, hfits⟩
    · rw [if_pos hruns, Option.toList_none, List.append_nil]
      exact h.of_changes hchanges hfits
    · rw [if_neg hruns]
      exact h.noted hchanges rfl hfits hopen
  | @left i x hx hchanges =>
    rw [Option.toList_none, List.append_nil]
    exact h.of_changes hchanges (h.fits i x hx).leave

end Consistent

/-- Over any run the timers are as the notes say. -/
theorem consistent_run {notes : List Note} {t : TimerTable} (h : Consistent notes t)
    (events : List Event) : Consistent (notes ++ (t.run events).2) (t.run events).1 := by
  induction events generalizing notes t with
  | nil =>
    rw [run, List.append_nil]
    exact h
  | cons e rest ih =>
    have hrest := ih (h.step (step_cases t e))
    rw [List.append_assoc] at hrest
    exact hrest

theorem consistent_run_nil (events : List Event) :
    Consistent (({} : TimerTable).run events).2 (({} : TimerTable).run events).1 :=
  consistent_run consistent_nil events

/-! ## Timers that are settled -/

/-- What an event makes of a timer that was there: it stays as it is, or makes one
    transition of its own. -/
theorem exists_transition {t t' : TimerTable} {note : Option Note} (hstep : Step t t' note)
    {i : Nat} {x : Timer} (hx : t.timer? i = some x) :
    ∃ x', t'.timer? i = some x'
      ∧ (x' = x ∨ x' = x.stop.2 ∨ x' = x.wake t.now ∨ x' = x.leave) := by
  -- what happens to another timer does not matter
  have hchanged : ∀ {j : Nat} {y y' : Timer}, t.timer? j = some y → t.Changes t' j y' →
      (y' = y.stop.2 ∨ y' = y.wake t.now ∨ y' = y.leave) →
      ∃ x', t'.timer? i = some x'
        ∧ (x' = x ∨ x' = x.stop.2 ∨ x' = x.wake t.now ∨ x' = x.leave) := by
    intro j y y' hy hchanges hy'
    by_cases hji : j = i
    · subst hji
      obtain rfl : x = y := Option.some.inj (hx.symm.trans hy)
      exact ⟨y', hchanges.self, Or.inr hy'⟩
    · exact ⟨x, (hchanges.others i hji).trans hx, Or.inl rfl⟩
  cases hstep with
  | quiet hsame => exact ⟨x, (hsame i).trans hx, Or.inl rfl⟩
  | @started j deadline hnew hchanges =>
    have hji : j ≠ i := by
      rintro rfl
      rw [hx] at hnew
      cases hnew
    exact ⟨x, (hchanges.others i hji).trans hx, Or.inl rfl⟩
  | stopped hy hchanges => exact hchanged hy hchanges (Or.inl rfl)
  | dropped hy hchanges => exact hchanged hy hchanges (Or.inl rfl)
  | woke hy hchanges => exact hchanged hy hchanges (Or.inr (Or.inl rfl))
  | left hy hchanges => exact hchanged hy hchanges (Or.inr (Or.inr rfl))

/-- No event moves a timer's deadline. -/
theorem deadline_step {t : TimerTable} {i : Nat} {x : Timer} (hx : t.timer? i = some x)
    (e : Event) : ∃ x', (t.step e).1.timer? i = some x' ∧ x'.deadline = x.deadline := by
  obtain ⟨x', hx', rfl | rfl | rfl | rfl⟩ := exists_transition (step_cases t e) hx
  · exact ⟨x', hx', rfl⟩
  · refine ⟨_, hx', ?_⟩
    rcases x.stop_cases with ⟨-, hstop⟩ | ⟨-, hstop⟩ <;> rw [hstop]
  · exact ⟨_, hx', x.deadline_wake t.now⟩
  · exact ⟨_, hx', x.leave_agreesWith.2.1⟩

/-- A timer of which it is settled whether its callback runs keeps its cell, its deadline
    and its number of runs, whatever happens. -/
theorem settled_step {t : TimerTable} {i : Nat} {x : Timer} (hx : t.timer? i = some x)
    (hsettled : x.cell ≠ .pending) (e : Event) :
    ∃ x', (t.step e).1.timer? i = some x' ∧ x'.AgreesWith x := by
  obtain ⟨x', hx', rfl | rfl | rfl | rfl⟩ := exists_transition (step_cases t e) hx
  · exact ⟨x', hx', rfl, rfl, rfl⟩
  · exact ⟨_, hx', Timer.settled_stop hsettled⟩
  · exact ⟨_, hx', Timer.settled_wake hsettled t.now⟩
  · exact ⟨_, hx', x.leave_agreesWith⟩

theorem settled_run {t : TimerTable} {i : Nat} {x : Timer} (hx : t.timer? i = some x)
    (hsettled : x.cell ≠ .pending) (events : List Event) :
    ∃ x', (t.run events).1.timer? i = some x' ∧ x'.AgreesWith x := by
  induction events generalizing t x with
  | nil => exact ⟨x, hx, rfl, rfl, rfl⟩
  | cons e rest ih =>
    obtain ⟨y, hy, hcell, hdeadline, hruns⟩ := settled_step hx hsettled e
    obtain ⟨z, hz, hcell', hdeadline', hruns'⟩ := ih hy (hcell ▸ hsettled)
    exact ⟨z, hz, hcell'.trans hcell, hdeadline'.trans hdeadline, hruns'.trans hruns⟩

/-- A thread that wakes when the deadline has come leaves nothing open: the timer was
    stopped, or its callback is entered. -/
theorem settled_wake_of_hasCome {notes : List Note} {t : TimerTable} (h : Consistent notes t)
    {i : Nat} {x : Timer} (hx : t.timer? i = some x) (hcome : x.deadline.hasCome t.now = true) :
    (x.wake t.now).cell ≠ .pending := by
  intro hp
  rcases x.wake_cases t.now with ⟨-, -, -, hwake⟩ | ⟨hasleep, hcell, -, -⟩
  · rw [hwake] at hp
    cases hp
  · rw [hcell] at hp
    rw [hasleep ((h.fits i x hx).waiting_of_pending hp) hp] at hcome
    cases hcome

/-! ## Stopping and firing exclude each other -/

/-- Any number of timers with any deadlines, and any order of starts, stops, drops and
    wake-ups under a clock that only moves on. For each timer the callback is entered at most
    once, and at most one stop is in time; the runs shown are the entries. A callback is
    entered only when its deadline has come, and only if no stop was in time before and its
    owner had not let it go. A stop by the owner is answered, and in time exactly if the timer
    had neither fired nor been stopped before; so never once the callback was entered. A
    thread that has woken when the deadline has come leaves the timer stopped without a run,
    or fired with one, for good. No deadline is ever moved, and what happens to one timer
    leaves every other as it is. -/
theorem stop_excludes_fire (events : List Event) :
    let t := (({} : TimerTable).run events).1
    let notes := (({} : TimerTable).run events).2
    (∀ i, notes.countP (Note.enters i) ≤ 1 ∧ notes.countP (Note.keeps i) ≤ 1)
      ∧ (∀ i x, t.timer? i = some x →
          t.runs[i]? = some (notes.countP (Note.enters i)))
      ∧ (∀ before i now after, notes = before ++ .entered i now :: after →
          (∃ x, t.timer? i = some x ∧ x.deadline.hasCome now = true)
            ∧ ∀ z ∈ before, z.settles i = false)
      ∧ (∀ before i after x, events = before ++ .stop i :: after →
          (({} : TimerTable).run before).1.live? i = some x →
          ((({} : TimerTable).run before).1.step (.stop i)).2
            = some (.answered i
                (decide (∀ z ∈ (({} : TimerTable).run before).2, z.settles i = false))))
      ∧ (∀ before i after x, events = before ++ .wake i :: after →
          (({} : TimerTable).run before).1.timer? i = some x →
          x.deadline.hasCome (({} : TimerTable).run before).1.now = true →
          ∃ x', t.timer? i = some x' ∧ x'.deadline = x.deadline
            ∧ ((x'.cell = .stopped ∧ x'.runs = 0) ∨ (x'.cell = .fired ∧ x'.runs = 1)))
      ∧ (∀ (u : TimerTable) (e : Event) (i : Nat) (x : Timer), u.timer? i = some x →
          ∃ x', (u.step e).1.timer? i = some x' ∧ x'.deadline = x.deadline)
      ∧ ∀ (u : TimerTable) (e : Event) (j : Nat), e.timer? ≠ some j → j < u.slots.length →
          (u.step e).1.slots[j]? = u.slots[j]? := by
  intro t notes
  have hend : Consistent notes t := consistent_run_nil events
  refine ⟨?_, ?_, ?_, ?_, ?_, fun u e i x hx => deadline_step hx e,
    fun u e j he hj => slots_step_ne he hj⟩
  · intro i
    cases hx : t.timer? i with
    | none =>
      -- nothing was noted of a timer that is not there
      have hne := hend.timer_ne hx
      have henters : notes.countP (Note.enters i) = 0 :=
        List.countP_eq_zero.mpr fun z hz => by simp [(Note.eq_false_of_timer_ne (hne z hz)).2.1]
      have hkeeps : notes.countP (Note.keeps i) = 0 :=
        List.countP_eq_zero.mpr fun z hz => by simp [(Note.eq_false_of_timer_ne (hne z hz)).2.2]
      omega
    | some x =>
      have hfits := hend.fits i x hx
      have hcount := hfits.runs_eq
      have hkeeps := hfits.countP_keeps_le
      rcases hfits.runs_cases with ⟨-, hruns⟩ | ⟨-, hruns⟩ <;> omega
  · intro i x hx
    rw [runs_getElem?_of_timer? hx, (hend.fits i x hx).runs_eq]
  · intro before i now after hnotes
    obtain ⟨x, hx⟩ := hend.known (.entered i now) (by rw [hnotes]; simp)
    have hcome := (hend.fits i x hx).hasCome now (by rw [hnotes]; simp)
    exact ⟨⟨x, hx, hcome⟩, hend.follows before (.entered i now) after hnotes⟩
  · intro before i after x _ hlive
    have hfits := (consistent_run_nil before).fits i x (timer?_of_live? hlive)
    simp only [step, stop, hlive, Option.map_some, hfits.stop_fst]
  · intro before i after x hevents hx hcome
    have hbefore := consistent_run_nil before
    have hsettled := settled_wake_of_hasCome hbefore hx hcome
    have hwoke := changes_onSlot (f := TimerSlot.wake (({} : TimerTable).run before).1.now)
      (g := (Timer.wake · (({} : TimerTable).run before).1.now)) hx fun _ => rfl
    obtain ⟨x', hx', hcell, hdeadline, -⟩ := settled_run hwoke.self hsettled after
    have hrun : t = ((({} : TimerTable).run before).1.run (.wake i :: after)).1 := by
      show (({} : TimerTable).run events).1 = _
      rw [hevents, run_append]
    have hlast : t.timer? i = some x' := by
      rw [hrun]
      exact hx'
    refine ⟨x', hlast, hdeadline.trans (x.deadline_wake _), ?_⟩
    rcases (hend.fits i x' hlast).runs_cases with ⟨hfired, hruns⟩ | ⟨hnot, hruns⟩
    · exact Or.inr ⟨hfired, hruns⟩
    · refine Or.inl ⟨?_, hruns⟩
      rw [← hcell] at hsettled
      cases hc : x'.cell with
      | pending => exact absurd hc hsettled
      | stopped => rfl
      | fired => exact absurd hc hnot

/-- Two timers: one is stopped in time and let go, the other's thread wakes a tick too early,
    for nothing, and then fires; while its callback runs, a stop comes too late. -/
theorem stop_excludes_fire_running :
    let before : List Event :=
      [.start (.tick 2) true, .start .never false, .stop 1, .tick, .wake 0, .tick, .wake 0]
    let events := before ++ .stop 0 :: [.letGo 1, .wake 1, .release 0]
    (({} : TimerTable).run events).2
        = [.answered 1 true, .entered 0 2, .answered 0 false, .letGo 1]
      ∧ ((({} : TimerTable).run before).1.step (.stop 0)).2 = some (.answered 0 false)
      ∧ (({} : TimerTable).run events).1.runs = [1, 0] := by
  intro before events
  refine ⟨by decide, ?_, by decide⟩
  obtain ⟨-, -, -, hstop, -⟩ := stop_excludes_fire events
  have hanswer := hstop before 0 _
    { deadline := .tick 2, cell := .fired, thread := .calling, runs := 1 } rfl (by decide)
  rw [hanswer]
  decide

end TimerTable

end StreamBuffer
