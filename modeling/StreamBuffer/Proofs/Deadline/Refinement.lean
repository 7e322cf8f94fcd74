/-
  StreamBuffer.Proofs.Deadline.Refinement

  A buffer's flag and timer are what the deadline as users see it says they are, in
  whatever order the changes of the deadline overlap.

  The buffer settles every order by its generation, users know changes by their
  number. The invariant `Agrees` ties the two: as long as generations do not wrap,
  the generation tells how many were opened, a change whose generation is current is
  the one that the deadline is pending for (or the deadline was reached), and a
  deadline pending for a change is one whose generation is current.
-/
import StreamBuffer.Proofs.Buffer.Action
import StreamBuffer.Proofs.Deadline.System

namespace StreamBuffer

namespace Deadline

/-! ## The invariant -/

/-- The stages in which a change's deadline can still be reached by its own timer,
    or by the refusal of it. -/
def Stage.InFlight : Stage → Prop
  | .opened | .started | .installed => True
  | .whole | .refused => False

/-- The changes fit the deadline as users see it, after `n` generations: none is of a
    later generation; one of the current generation that has, or had, a timer is the
    pending one, or the deadline was reached; and the pending one is in flight. -/
structure Tracks (changes : List Change) (v : View) (n : Nat) : Prop where
  generation_le : ∀ (k : Nat) (c : Change), changes[k]? = some c → c.generation.toNat ≤ n
  current : ∀ (k : Nat) (c : Change), changes[k]? = some c → c.stage ≠ .whole →
    c.generation.toNat = n → v = .pending k ∨ v = .reached
  pending : ∀ k, v = .pending k →
    ∃ c : Change, changes[k]? = some c ∧ c.generation.toNat = n ∧ c.stage.InFlight

/-- The system agrees with the deadline as users see it, after `n` generations. -/
structure Agrees (s : System) (v : View) (n : Nat) : Prop where
  generation_eq : s.buffer.state.generation.toNat = n
  reached_iff : s.buffer.state.deadlineReached = true ↔ v = .reached
  timer_iff : ∀ k, s.buffer.state.timer = some k ↔
    v = .pending k ∧ ∃ c : Change, s.changes[k]? = some c ∧ c.stage = .installed
  tracks : Tracks s.changes v n

theorem agrees_ofConfig (c : Config) : Agrees (System.ofConfig c) .none 0 := by
  refine ⟨rfl, ?_, ?_, ?_, ?_, ?_⟩
  · exact ⟨fun h => (by cases h), fun h => (by cases h)⟩
  · intro k
    exact ⟨fun h => (by cases h), fun h => (by cases h.1)⟩
  · intro k c h
    cases h
  · intro k c h
    cases h
  · intro k h
    cases h

/-- A generation that is opened before the numbers are used up is the next one. -/
theorem toNat_succ {g : UInt64} {n : Nat} (h : g.toNat = n) (hlt : n + 1 < UInt64.size) :
    (g + 1).toNat = n + 1 := by
  rw [UInt64.toNat_add, h]
  exact Nat.mod_eq_of_lt hlt

/-- Events of readers and writers leave the agreement as it is: they touch neither
    the flags, the timer nor the generation. -/
theorem Agrees.of_control_eq {s : System} {v : View} {n : Nat} (h : Agrees s v n)
    {buffer : Buffer} (hcontrol : buffer.state.control = s.buffer.state.control) :
    Agrees { s with buffer } v n := by
  obtain ⟨-, hreached, htimer, hgeneration⟩ := BufferState.fields_of_control_eq hcontrol
  refine ⟨?_, ?_, ?_, h.tracks⟩
  · show buffer.state.generation.toNat = n
    rw [hgeneration]
    exact h.generation_eq
  · show buffer.state.deadlineReached = true ↔ v = .reached
    rw [hreached]
    exact h.reached_iff
  · intro k
    show buffer.state.timer = some k ↔ _
    rw [htimer]
    exact h.timer_iff k

/-! ## Events that open a generation -/

/-- After closing no change is current, and no timer is installed. -/
theorem agrees_close {s : System} {v : View} {n : Nat} (h : Agrees s v n)
    (hlt : n + 1 < UInt64.size) :
    Agrees { s with buffer := s.buffer.close.1 } v.callOff (n + 1) := by
  have hfields := Buffer.fields_act s.buffer .close
  have hreached : s.buffer.close.1.state.deadlineReached = s.buffer.state.deadlineReached :=
    hfields.2.1
  have htimer : s.buffer.close.1.state.timer = none := hfields.2.2.1
  have hgeneration : s.buffer.close.1.state.generation = s.buffer.state.generation + 1 :=
    hfields.2.2.2
  refine ⟨?_, ?_, ?_, ?_, ?_, ?_⟩
  · show s.buffer.close.1.state.generation.toNat = n + 1
    rw [hgeneration]
    exact toNat_succ h.generation_eq hlt
  · show s.buffer.close.1.state.deadlineReached = true ↔ v.callOff = .reached
    rw [hreached, h.reached_iff]
    cases v <;> simp [View.callOff]
  · intro k
    show s.buffer.close.1.state.timer = some k ↔ _
    rw [htimer]
    cases v <;> simp [View.callOff]
  · intro k c hc
    exact Nat.le_succ_of_le (h.tracks.generation_le k c hc)
  · -- every change is of an earlier generation than the one that closing opened
    intro k c hc _ hn
    have hle := h.tracks.generation_le k c hc
    omega
  · intro k hk
    cases v <;> simp [View.callOff] at hk

/-- A change found after one was added is that one, under the next number, or was
    there before. -/
theorem eq_of_getElem?_concat {changes : List Change} {new c : Change} {k : Nat}
    (h : (changes ++ [new])[k]? = some c) :
    changes[k]? = some c ∨ (k = changes.length ∧ c = new) := by
  rcases Nat.lt_trichotomy k changes.length with hlt | heq | hgt
  · rw [List.getElem?_append_left hlt] at h
    exact Or.inl h
  · subst heq
    rw [List.getElem?_concat_length, Option.some.injEq] at h
    exact Or.inr ⟨rfl, h.symm⟩
  · rw [List.getElem?_eq_none (by simp; omega)] at h
    cases h

/-- A first half clears the deadline, finds that it has come, or opens a change that
    the deadline is then pending for. -/
theorem ofDeadline_cases (now k : Nat) (deadline : Option Instant) :
    (deadline.any (Instant.hasCome now) = false ∧ View.ofDeadline now k deadline = .none
        ∧ Stage.ofDeadline now deadline = .whole)
      ∨ (deadline.any (Instant.hasCome now) = true ∧ View.ofDeadline now k deadline = .reached
        ∧ Stage.ofDeadline now deadline = .whole)
      ∨ (deadline.any (Instant.hasCome now) = false
        ∧ View.ofDeadline now k deadline = .pending k
        ∧ Stage.ofDeadline now deadline = .opened) := by
  cases deadline with
  | none => exact Or.inl ⟨rfl, rfl, rfl⟩
  | some d =>
    rw [Option.any_some, View.ofDeadline, Stage.ofDeadline]
    cases d.hasCome now with
    | true => exact Or.inr (Or.inl ⟨rfl, rfl, rfl⟩)
    | false => exact Or.inr (Or.inr ⟨rfl, rfl, rfl⟩)

/-- A new change, of the next generation, fits the deadline that its first half
    made. -/
theorem Tracks.concat {changes : List Change} {v : View} {n : Nat} (h : Tracks changes v n)
    {c : Change} (hgeneration : c.generation.toNat = n + 1) (now : Nat)
    (deadline : Option Instant) (hstage : c.stage = .ofDeadline now deadline) :
    Tracks (changes ++ [c]) (.ofDeadline now changes.length deadline) (n + 1) := by
  have hcases := ofDeadline_cases now changes.length deadline
  rw [← hstage] at hcases
  refine ⟨?_, ?_, ?_⟩
  · intro k d hd
    rcases eq_of_getElem?_concat hd with hold | ⟨-, rfl⟩
    · exact Nat.le_succ_of_le (h.generation_le k d hold)
    · exact Nat.le_of_eq hgeneration
  · intro k d hd hwhole hn
    rcases eq_of_getElem?_concat hd with hold | ⟨rfl, rfl⟩
    · have hle := h.generation_le k d hold
      omega
    · rcases hcases with ⟨-, -, hw⟩ | ⟨-, -, hw⟩ | ⟨-, hview, -⟩
      · exact absurd hw hwhole
      · exact absurd hw hwhole
      · exact Or.inl hview
  · intro k hk
    rcases hcases with ⟨-, hview, -⟩ | ⟨-, hview, -⟩ | ⟨-, hview, hopened⟩
    · rw [hview] at hk
      cases hk
    · rw [hview] at hk
      cases hk
    · rw [hview, View.pending.injEq] at hk
      subst hk
      refine ⟨c, List.getElem?_concat_length, hgeneration, ?_⟩
      rw [hopened]
      trivial

/-- After the first half of a change, that change alone can be current. -/
theorem agrees_set {s : System} {v : View} {n : Nat} (h : Agrees s v n)
    (hlt : n + 1 < UInt64.size) (now : Nat) (deadline : Option Instant) :
    Agrees
      { buffer := (s.buffer.startDeadline now deadline).1
        changes := s.changes ++
          [{ generation := (s.buffer.startDeadline now deadline).1.state.generation
             stage := .ofDeadline now deadline }] }
      (.ofDeadline now s.changes.length deadline) (n + 1) := by
  have hfields := Buffer.fields_act s.buffer (.startDeadline now deadline)
  have hreached : (s.buffer.startDeadline now deadline).1.state.deadlineReached
      = deadline.any (Instant.hasCome now) := hfields.2.1
  have htimer : (s.buffer.startDeadline now deadline).1.state.timer = none := hfields.2.2.1
  have hgeneration : (s.buffer.startDeadline now deadline).1.state.generation
      = s.buffer.state.generation + 1 := hfields.2.2.2
  have hnext : (s.buffer.startDeadline now deadline).1.state.generation.toNat = n + 1 := by
    rw [hgeneration]
    exact toNat_succ h.generation_eq hlt
  have hcases := ofDeadline_cases now s.changes.length deadline
  refine ⟨hnext, ?_, ?_, h.tracks.concat hnext now deadline rfl⟩
  · show (s.buffer.startDeadline now deadline).1.state.deadlineReached = true ↔ _
    rw [hreached]
    rcases hcases with ⟨hany, hview, -⟩ | ⟨hany, hview, -⟩ | ⟨hany, hview, -⟩
    · simp [hany, hview]
    · simp [hany, hview]
    · simp [hany, hview]
  · intro k
    show (s.buffer.startDeadline now deadline).1.state.timer = some k ↔ _
    rw [htimer]
    refine ⟨fun hnone => (by cases hnone), ?_⟩
    rintro ⟨hk, c, hc, hinstalled⟩
    -- only the new change can be pending, and it was only opened
    exfalso
    rcases hcases with ⟨-, hview, -⟩ | ⟨-, hview, -⟩ | ⟨-, hview, hopened⟩
    · rw [hview] at hk
      cases hk
    · rw [hview] at hk
      cases hk
    · rw [hview, View.pending.injEq] at hk
      subst hk
      rw [List.getElem?_concat_length, Option.some.injEq] at hc
      rw [← hc] at hinstalled
      rw [hopened] at hinstalled
      cases hinstalled

/-! ## Events of a change in flight -/

theorem getElem?_advance (s : System) (k j : Nat) (stage : Stage) :
    (s.advance k stage).changes[j]?
      = (s.changes[j]?).map fun c => if k = j then { c with stage } else c :=
  List.getElem?_modify _ _ _ j

/-- A change that has a timer and comes further fits as before, if it stays in flight
    while it is the pending one. -/
theorem Tracks.advance {s : System} {v : View} {n k : Nat} {c : Change} {stage : Stage}
    (h : Tracks s.changes v n) (hc : s.changes[k]? = some c) (hwhole : c.stage ≠ .whole)
    (hflight : v = .pending k → stage.InFlight) :
    Tracks (s.advance k stage).changes v n := by
  refine ⟨?_, ?_, ?_⟩
  · intro j d hd
    rw [getElem?_advance, Option.map_eq_some_iff] at hd
    obtain ⟨old, hold, rfl⟩ := hd
    have hle := h.generation_le j old hold
    split <;> exact hle
  · intro j d hd hstage hn
    rw [getElem?_advance, Option.map_eq_some_iff] at hd
    obtain ⟨old, hold, rfl⟩ := hd
    by_cases hkj : k = j
    · subst hkj
      rw [hc, Option.some.injEq] at hold
      subst hold
      rw [if_pos rfl] at hn
      exact h.current k c hc hwhole hn
    · rw [if_neg hkj] at hstage hn
      exact h.current j old hold hstage hn
  · intro j hview
    obtain ⟨old, hold, hn, hold_flight⟩ := h.pending j hview
    refine ⟨if k = j then { old with stage } else old, ?_, ?_, ?_⟩
    · rw [getElem?_advance, hold]
      rfl
    · split <;> exact hn
    · by_cases hkj : k = j
      · subst hkj
        rw [if_pos rfl]
        exact hflight hview
      · rw [if_neg hkj]
        exact hold_flight

/-- A change that comes further without the buffer being touched keeps the agreement,
    if it is not the pending one, or if its timer is not installed, before or after. -/
theorem Agrees.advance {s : System} {v : View} {n k : Nat} {c : Change} {stage : Stage}
    (h : Agrees s v n) (hc : s.changes[k]? = some c) (hwhole : c.stage ≠ .whole)
    (hkeep : v = .pending k →
      stage.InFlight ∧ stage ≠ .installed ∧ c.stage ≠ .installed) :
    Agrees (s.advance k stage) v n := by
  refine ⟨h.generation_eq, h.reached_iff, ?_, h.tracks.advance hc hwhole fun hv => (hkeep hv).1⟩
  intro j
  show s.buffer.state.timer = some j ↔ _
  rw [h.timer_iff j, getElem?_advance]
  refine and_congr_right fun hview => ?_
  by_cases hkj : k = j
  · subst hkj
    simp [hc, (hkeep hview).2.1, (hkeep hview).2.2]
  · simp [hkj]

/-- Once the deadline is reached, it does not matter how far any change has come. -/
theorem agrees_reached {s : System} {n : Nat}
    (hgeneration : s.buffer.state.generation.toNat = n)
    (hreached : s.buffer.state.deadlineReached = true) (htimer : s.buffer.state.timer = none)
    (hle : ∀ (k : Nat) (c : Change), s.changes[k]? = some c → c.generation.toNat ≤ n) :
    Agrees s .reached n := by
  refine ⟨hgeneration, ?_, ?_, hle, ?_, ?_⟩
  · simp [hreached]
  · intro k
    simp [htimer]
  · intro k c _ _ _
    exact Or.inr rfl
  · intro k hview
    cases hview

/-- The pending change is of the buffer's generation. -/
theorem Agrees.generation_eq_of_pending {s : System} {v : View} {n k : Nat} {c : Change}
    (h : Agrees s v n) (hc : s.changes[k]? = some c) (hview : v = .pending k) :
    s.buffer.state.generation = c.generation := by
  obtain ⟨d, hd, hn, -⟩ := h.tracks.pending k hview
  rw [hc, Option.some.injEq] at hd
  subst hd
  apply UInt64.toNat_inj.mp
  rw [h.generation_eq, hn]

theorem Agrees.not_pending {s : System} {v : View} {n k : Nat} {c : Change}
    (h : Agrees s v n) (hc : s.changes[k]? = some c)
    (hover : s.buffer.state.generation ≠ c.generation) : v ≠ .pending k :=
  fun hview => hover (h.generation_eq_of_pending hc hview)

/-- A change of the buffer's generation that has a timer is the pending one, or the
    deadline was reached. -/
theorem Agrees.pending_or_reached {s : System} {v : View} {n k : Nat} {c : Change}
    (h : Agrees s v n) (hc : s.changes[k]? = some c) (hwhole : c.stage ≠ .whole)
    (hcur : s.buffer.state.generation = c.generation) : v = .pending k ∨ v = .reached := by
  apply h.tracks.current k c hc hwhole
  rw [← hcur]
  exact h.generation_eq

theorem agrees_start {s : System} {v : View} {n k : Nat} {c : Change} (h : Agrees s v n)
    (hc : s.changes[k]? = some c) (hstage : c.stage = .opened) :
    Agrees (s.advance k .started) v n := by
  refine h.advance hc (by rw [hstage]; simp) ?_
  intro _
  exact ⟨trivial, by simp, by simp [hstage]⟩

/-- The second half after a start installs the timer of the pending change, and that
    of no other. -/
theorem agrees_install {s : System} {v : View} {n k : Nat} {c : Change} (h : Agrees s v n)
    (hc : s.changes[k]? = some c) (hstage : c.stage = .started) :
    Agrees ({ s with buffer := (s.buffer.install c.generation k).1 }.advance k .installed)
      v n := by
  have hwhole : c.stage ≠ .whole := by simp [hstage]
  by_cases hcur : s.buffer.state.generation = c.generation ∧ s.buffer.state.deadlineReached = false
  · -- nothing came between the halves, and so the deadline is still pending for this change
    have hview : v = .pending k := by
      apply (h.pending_or_reached hc hwhole hcur.1).resolve_right
      rw [← h.reached_iff, hcur.2]
      simp
    have hbuffer : (s.buffer.install c.generation k).1
        = { s.buffer with state := { s.buffer.state with timer := some k } } := by
      rw [Buffer.install, if_pos hcur]
    rw [hbuffer]
    refine ⟨h.generation_eq, h.reached_iff, ?_, h.tracks.advance hc hwhole fun _ => trivial⟩
    intro j
    show some k = some j ↔ v = .pending j ∧ ∃ d : Change,
      (s.advance k .installed).changes[j]? = some d ∧ d.stage = .installed
    rw [getElem?_advance, hview]
    constructor
    · intro hkj
      obtain rfl : k = j := by simpa using hkj
      exact ⟨rfl, { c with stage := .installed }, by simp [hc], rfl⟩
    · rintro ⟨hkj, -⟩
      simpa using hkj
  · -- another change, closing or the timer itself came first: this one is not pending
    have hbuffer : (s.buffer.install c.generation k).1 = s.buffer := by
      rw [Buffer.install, if_neg hcur]
    rw [hbuffer]
    refine h.advance hc hwhole ?_
    intro hview
    exfalso
    apply hcur
    refine ⟨h.generation_eq_of_pending hc hview, ?_⟩
    rw [← Bool.not_eq_true, h.reached_iff, hview]
    simp

/-- Nothing but the pending change's own moment reaches the deadline. -/
theorem View.reach_of_ne {v : View} {k : Nat} (h : v ≠ .pending k) : v.reach k = v := if_neg h

theorem View.reach_of_pending_or_reached {v : View} {k : Nat}
    (h : v = .pending k ∨ v = .reached) : v.reach k = .reached := by
  rcases h with rfl | rfl
  · exact if_pos rfl
  · rfl

/-- The refusal of the pending change's timer reaches the deadline, that of any other
    does nothing. -/
theorem agrees_refuse {s : System} {v : View} {n k : Nat} {c : Change} (h : Agrees s v n)
    (hc : s.changes[k]? = some c) (hstage : c.stage = .opened) :
    Agrees ({ s with buffer := (s.buffer.startRefused c.generation).1 }.advance k .refused)
      (v.reach k) n := by
  have hwhole : c.stage ≠ .whole := by simp [hstage]
  by_cases hcur : s.buffer.state.generation = c.generation
  · have hview := h.pending_or_reached hc hwhole hcur
    obtain ⟨-, hreached, htimer, hgeneration⟩ :=
      Buffer.fields_act s.buffer (.startRefused c.generation)
    simp only [Buffer.change, if_pos hcur] at hreached htimer hgeneration
    rw [View.reach_of_pending_or_reached hview]
    -- no timer is installed: it would be that of this change, which has none yet
    have hnone : s.buffer.state.timer = none := by
      cases ht : s.buffer.state.timer with
      | none => rfl
      | some j =>
        obtain ⟨hj, d, hd, hinstalled⟩ := (h.timer_iff j).mp ht
        rcases hview with hk | hk
        · obtain rfl : j = k := by
            rw [hj] at hk
            simpa using hk
          rw [hc, Option.some.injEq] at hd
          rw [← hd, hstage] at hinstalled
          cases hinstalled
        · rw [hj] at hk
          cases hk
    have hagrees : Agrees { s with buffer := (s.buffer.startRefused c.generation).1 } .reached n :=
      agrees_reached ((congrArg UInt64.toNat hgeneration).trans h.generation_eq) hreached
        (htimer.trans hnone) h.tracks.generation_le
    exact hagrees.advance hc hwhole fun hpending => (by cases hpending)
  · have hbuffer : (s.buffer.startRefused c.generation).1 = s.buffer := by
      rw [Buffer.startRefused, if_neg hcur]
    have hview : v ≠ .pending k := h.not_pending hc hcur
    rw [hbuffer, View.reach_of_ne hview]
    exact h.advance hc hwhole fun hpending => absurd hpending hview

/-- The callback of the pending change's timer reaches the deadline, that of any other
    does nothing. -/
theorem agrees_callback {s : System} {v : View} {n k : Nat} {c : Change} (h : Agrees s v n)
    (hc : s.changes[k]? = some c) (hstage : c.stage = .started ∨ c.stage = .installed) :
    Agrees { s with buffer := (s.buffer.fire c.generation).1 } (v.reach k) n := by
  have hwhole : c.stage ≠ .whole := by
    rcases hstage with hstage | hstage <;> simp [hstage]
  by_cases hcur : s.buffer.state.generation = c.generation
  · have hview := h.pending_or_reached hc hwhole hcur
    obtain ⟨-, hreached, htimer, hgeneration⟩ := Buffer.fields_act s.buffer (.fire c.generation)
    simp only [Buffer.change, if_pos hcur] at hreached htimer hgeneration
    rw [View.reach_of_pending_or_reached hview]
    refine agrees_reached ?_ hreached htimer h.tracks.generation_le
    exact (congrArg UInt64.toNat hgeneration).trans h.generation_eq
  · have hbuffer : (s.buffer.fire c.generation).1 = s.buffer := by
      rw [Buffer.fire, if_neg hcur]
    have hview : v ≠ .pending k := h.not_pending hc hcur
    rw [hbuffer, View.reach_of_ne hview]
    exact h

/-! ## One event, and a run -/

/-- Every event keeps the agreement, as long as generations do not wrap. -/
theorem agrees_step {s t : System} {v : View} {n : Nat} {e : Event} (h : Agrees s v n)
    (hstep : s.step e = some t) (hlt : n + e.generations < UInt64.size) :
    Agrees t (v.step s.changes.length e) (n + e.generations)
      ∧ t.changes.length = s.changes.length + e.sets := by
  cases e with
  | write chunk =>
    obtain rfl : _ = t := Option.some.inj hstep
    exact ⟨h.of_control_eq (Buffer.control_act s.buffer (.write chunk)), rfl⟩
  | read id call =>
    obtain rfl : _ = t := Option.some.inj hstep
    exact ⟨h.of_control_eq (Buffer.control_act s.buffer (.read id call)), rfl⟩
  | close =>
    obtain rfl : _ = t := Option.some.inj hstep
    exact ⟨agrees_close h hlt, rfl⟩
  | set now deadline =>
    obtain rfl : _ = t := Option.some.inj hstep
    exact ⟨agrees_set h hlt now deadline, by simp [Event.sets]⟩
  | start k =>
    obtain ⟨c, hc, hstage, rfl⟩ := System.eq_of_step_start hstep
    exact ⟨agrees_start h hc hstage, System.length_advance _ _ _⟩
  | install k =>
    obtain ⟨c, hc, hstage, rfl⟩ := System.eq_of_step_install hstep
    exact ⟨agrees_install h hc hstage, System.length_advance _ _ _⟩
  | refuse k =>
    obtain ⟨c, hc, hstage, rfl⟩ := System.eq_of_step_refuse hstep
    exact ⟨agrees_refuse h hc hstage, System.length_advance _ _ _⟩
  | callback k =>
    obtain ⟨c, hc, hstage, rfl⟩ := System.eq_of_step_callback hstep
    exact ⟨agrees_callback h hc hstage, rfl⟩

/-- A run from an agreement ends in one. -/
theorem agrees_run {s t : System} {v : View} {n : Nat} {events : List Event} (h : Agrees s v n)
    (hrun : s.run events = some t) (hlt : n + generations events < UInt64.size) :
    Agrees t (v.run s.changes.length events) (n + generations events) := by
  -- on the events, with the number of changes so far as the next change's number
  induction events generalizing s v n with
  | nil =>
    obtain rfl : s = t := Option.some.inj hrun
    exact h
  | cons e rest ih =>
    obtain ⟨mid, hstep, hrest⟩ := Option.bind_eq_some_iff.mp hrun
    rw [generations] at hlt ⊢
    obtain ⟨hmid, hlen⟩ := agrees_step h hstep (by omega)
    have hend := ih hmid hrest (by omega)
    rw [hlen, Nat.add_assoc] at hend
    exact hend

/-- Over every run of a new buffer that opens fewer than 2^64 generations, the flag
    is set exactly when the deadline as users see it is reached, and a timer is
    installed exactly when the deadline is pending for a change whose second half is
    done; it is that change's timer. A deadline that is pending and has no timer yet
    is one whose change is between its halves. -/
theorem deadline_refines {c : Config} {events : List Event} {s : System}
    (hrun : (System.ofConfig c).run events = some s) (hlt : generations events < UInt64.size) :
    (s.buffer.state.deadlineReached = true ↔ View.run .none 0 events = .reached)
      ∧ (∀ k, s.buffer.state.timer = some k ↔
          View.run .none 0 events = .pending k
            ∧ ∃ d : Change, s.changes[k]? = some d ∧ d.stage = .installed)
      ∧ ∀ k, View.run .none 0 events = .pending k → s.buffer.state.timer = none →
          ∃ d : Change, s.changes[k]? = some d ∧ (d.stage = .opened ∨ d.stage = .started) := by
  have hagrees := agrees_run (agrees_ofConfig c) hrun (by omega)
  rw [Nat.zero_add] at hagrees
  refine ⟨hagrees.reached_iff, hagrees.timer_iff, ?_⟩
  intro k hview htimer
  obtain ⟨d, hd, -, hflight⟩ := hagrees.tracks.pending k hview
  refine ⟨d, hd, ?_⟩
  cases hstage : d.stage with
  | opened => exact Or.inl rfl
  | started => exact Or.inr rfl
  | installed =>
    have hsome := (hagrees.timer_iff k).mpr ⟨hview, d, hd, hstage⟩
    rw [htimer] at hsome
    cases hsome
  | whole =>
    rw [hstage] at hflight
    cases hflight
  | refused =>
    rw [hstage] at hflight
    cases hflight

/-- Two changes overlap: the timer of the first fires when the second has begun, and
    its second half comes last. The deadline is the second one's, and so is the
    timer. -/
theorem deadline_refines_overlapping :
    let events : List Event := [.set 0 (some (.tick 5)), .start 0, .set 3 (some (.tick 9)),
      .callback 0, .start 1, .install 1, .install 0]
    generations events < UInt64.size
      ∧ ∃ s : System, (System.ofConfig {}).run events = some s
        ∧ s.buffer.state.deadlineReached = false ∧ s.buffer.state.timer = some 1 := by
  intro events
  have hlt : generations events < UInt64.size := by decide
  refine ⟨hlt, _, rfl, ?_, ?_⟩
  · obtain ⟨hreached, -⟩ := @deadline_refines {} events _ rfl hlt
    rw [← Bool.not_eq_true, hreached]
    decide
  · obtain ⟨-, htimer, -⟩ := @deadline_refines {} events _ rfl hlt
    rw [htimer]
    exact ⟨by decide, _, rfl, rfl⟩

end Deadline

end StreamBuffer
