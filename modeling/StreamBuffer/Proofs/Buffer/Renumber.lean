/-
  StreamBuffer.Proofs.Buffer.Renumber

  Buffers under other numbers: their readers renumbered, with another generation, and with
  another timer or none.

  The numbers are names. No reader looks at its own number, at the generation or at the
  timer, so whoever runs on the renumbered buffer does there what he does on the buffer
  (`Reader.proceed_renumber`, `wakeAll_renumber`); and so does every operation, but that it
  opens the next generation from where it finds itself (`write_renumber`, `close_renumber`,
  `startDeadline_renumber`, `reachDeadline_renumber`, `read_renumber`).

  One lemma for each function, from a look at the queue up to the operations on a buffer.
-/
import StreamBuffer.Proofs.Buffer.Waking

namespace StreamBuffer

/-! ## Readers -/

/-- The state with another generation, and with another timer or none. -/
def BufferState.renumber (g : UInt64) (timer : Option Nat) (s : BufferState) : BufferState :=
  { s with generation := g, timer }

/-- The reader under another number. -/
def Reader.renumber (ρ : Nat → Nat) (r : Reader) : Reader := { r with id := ρ r.id }

/-- The same progress under another number. -/
def Progress.renumber (ρ : Nat → Nat) : Progress → Progress
  | .ended outcome => .ended outcome
  | .onward r => .onward (r.renumber ρ)
  | .waits => .waits

/-- How far the reader came, under another number and on a renumbered state. -/
def Advance.renumber (ρ : Nat → Nat) (g : UInt64) (timer : Option Nat) (a : Advance) : Advance :=
  { a with standing := a.standing.map id (Reader.renumber ρ), state := a.state.renumber g timer }

section

variable (ρ : Nat → Nat) (g : UInt64) (timer : Option Nat)

namespace BufferState

theorem attempt_renumber (s : BufferState) (n : Nat) :
    (s.renumber g timer).attempt n
      = ((s.attempt n).1, (s.attempt n).2.renumber g timer) := by
  rw [attempt_eq, attempt_eq]
  rfl

theorem enter_renumber (s : BufferState) (n : Nat) :
    (s.renumber g timer).enter n = ((s.enter n).1, (s.enter n).2.renumber g timer) := by
  rw [enter, enter, attempt_renumber]
  show (if s.deadlineReached then _ else _) = _
  split <;> rfl

end BufferState

namespace Reader

theorem look_renumber (r : Reader) (s : BufferState) (entering : Bool) :
    (r.renumber ρ).look (s.renumber g timer) entering
      = ((r.look s entering).1, (r.look s entering).2.renumber g timer) := by
  rw [look, look]
  split
  · exact s.enter_renumber g timer r.want
  · exact s.attempt_renumber g timer r.want

theorem settle_renumber (r : Reader) (a : Attempt) :
    (r.renumber ρ).settle a = (r.settle a).renumber ρ := by
  obtain ⟨i, call, got⟩ := r
  cases a with
  | nothing => rfl
  | taken bytes =>
    cases call with
    | fill n =>
      have hsettle : ∀ j, settle { id := j, call := .fill n, got } (.taken bytes)
          = if n ≤ got.length + bytes.length then .ended (.bytes (got ++ bytes))
            else .onward { id := j, call := .fill n, got := got ++ bytes } := fun j => rfl
      show settle { id := ρ i, call := .fill n, got } (.taken bytes)
        = (settle { id := i, call := .fill n, got } (.taken bytes)).renumber ρ
      rw [hsettle, hsettle]
      split <;> rfl
    | _ => rfl
  | failed e => cases e <;> cases call <;> rfl

theorem eventsOf_renumber (r : Reader) (a : Attempt) :
    (r.renumber ρ).eventsOf a = r.eventsOf a := by
  obtain ⟨id, call, got⟩ := r
  rfl

/-- A whole run, by induction on its looks at the queue. -/
theorem proceed_renumber (r : Reader) (s : BufferState) (entering : Bool) :
    (r.renumber ρ).proceed (s.renumber g timer) entering
      = (r.proceed s entering).renumber ρ g timer := by
  fun_induction proceed r s entering with
  | case1 r s entering a outcome h =>
    have hsettle : (r.renumber ρ).settle ((r.renumber ρ).look (s.renumber g timer) entering).1
        = .ended outcome := by
      rw [look_renumber, settle_renumber, h]
      rfl
    rw [proceed_of_ended hsettle, look_renumber, eventsOf_renumber]
    rfl
  | case2 r s entering a h =>
    have hsettle : (r.renumber ρ).settle ((r.renumber ρ).look (s.renumber g timer) entering).1
        = .waits := by
      rw [look_renumber, settle_renumber, h]
      rfl
    rw [proceed_of_waits hsettle, look_renumber, eventsOf_renumber]
    rfl
  | case3 r s entering a r' h rest ih =>
    have hsettle : (r.renumber ρ).settle ((r.renumber ρ).look (s.renumber g timer) entering).1
        = .onward (r'.renumber ρ) := by
      rw [look_renumber, settle_renumber, h]
      rfl
    rw [proceed_of_onward hsettle, look_renumber, eventsOf_renumber]
    dsimp only
    rw [ih]
    rfl

theorem start_renumber (r : Reader) (s : BufferState) :
    (r.renumber ρ).start (s.renumber g timer) = (r.start s).renumber ρ g timer := by
  obtain ⟨id, call, got⟩ := r
  have hproceed := proceed_renumber ρ g timer { id, call, got } s true
  cases call with
  | fill n =>
    cases n with
    | zero => rfl
    | succ n => exact hproceed
  | _ => exact hproceed

theorem resume_renumber (r : Reader) (s : BufferState) :
    (r.renumber ρ).resume (s.renumber g timer) = (r.resume s).renumber ρ g timer :=
  proceed_renumber ρ g timer r s false

end Reader

/-! ## Buffers -/

/-- Calls that ended, under other numbers. -/
def renumberEnded (ended : List (Nat × Outcome)) : List (Nat × Outcome) :=
  ended.map (Prod.map ρ id)

/-- The effects with the calls under other numbers. -/
def Effects.renumber (e : Effects) : Effects := { e with ended := renumberEnded ρ e.ended }

@[simp] theorem Effects.renumber_append (e₁ e₂ : Effects) :
    (e₁ ++ e₂).renumber ρ = e₁.renumber ρ ++ e₂.renumber ρ := by
  show Effects.renumber ρ (Effects.append e₁ e₂) = Effects.append (e₁.renumber ρ) (e₂.renumber ρ)
  simp [Effects.append, renumber, renumberEnded]

namespace Buffer

/-- The buffer under other numbers. -/
def renumber (b : Buffer) : Buffer where
  threadName := b.threadName
  state := b.state.renumber g timer
  waiting := b.waiting.map (Reader.renumber ρ)

@[simp] theorem waitingIds_renumber (b : Buffer) :
    (b.renumber ρ g timer).waitingIds = b.waitingIds.map ρ := by
  rw [waitingIds, waitingIds, renumber, List.map_map, List.map_map]
  rfl

theorem accept_renumber (b : Buffer) (i : Nat) (a : Advance) :
    (b.renumber ρ g timer).accept (ρ i) (a.renumber ρ g timer)
      = Prod.map (renumber ρ g timer) (Effects.renumber ρ) (b.accept i a) := by
  obtain ⟨standing, state, events, copied⟩ := a
  cases standing <;> simp [accept, Advance.renumber, renumber, Effects.renumber, renumberEnded]

theorem serve_renumber (b : Buffer) (r : Reader) :
    (b.renumber ρ g timer).serve (r.renumber ρ)
      = Prod.map (renumber ρ g timer) (Effects.renumber ρ) (b.serve r) := by
  rw [serve, serve, ← accept_renumber, ← Reader.resume_renumber]
  rfl

theorem serveAll_renumber (b : Buffer) (readers : List Reader) :
    (b.renumber ρ g timer).serveAll (readers.map (Reader.renumber ρ))
      = Prod.map (renumber ρ g timer) (Effects.renumber ρ) (b.serveAll readers) := by
  induction readers generalizing b with
  | nil => rfl
  | cons r rest ih =>
    simp only [List.map_cons, serveAll, serve_renumber, Prod.map_fst, ih]
    simp

theorem wakeAll_renumber (b : Buffer) :
    (b.renumber ρ g timer).wakeAll
      = Prod.map (renumber ρ g timer) (Effects.renumber ρ) b.wakeAll :=
  serveAll_renumber ρ g timer { b with waiting := [] } b.waiting

theorem wakeOne_renumber (b : Buffer) :
    (b.renumber ρ g timer).wakeOne
      = Prod.map (renumber ρ g timer) (Effects.renumber ρ) b.wakeOne := by
  obtain ⟨threadName, state, waiting⟩ := b
  cases waiting with
  | nil => rfl
  | cons r rest => exact serve_renumber ρ g timer { threadName, state, waiting := rest } r

/-! ## Operations

The effects are told as far as a session's readers see them: which calls ended, and how. -/

theorem write_renumber (b : Buffer) (chunk : Bytes) :
    ((b.renumber ρ g timer).write chunk).1 = (b.write chunk).1.renumber ρ g timer
      ∧ ((b.renumber ρ g timer).write chunk).2.ended = renumberEnded ρ (b.write chunk).2.ended := by
  have hwake := wakeOne_renumber ρ g timer
    { b with state := { b.state with queue := b.state.queue.append chunk } }
  exact ⟨congrArg Prod.fst hwake, congrArg (·.2.ended) hwake⟩

/-- To close opens the next generation, and leaves no timer. -/
theorem close_renumber (b : Buffer) :
    (b.renumber ρ g timer).close.1 = b.close.1.renumber ρ (g + 1) none
      ∧ (b.renumber ρ g timer).close.2.ended = renumberEnded ρ b.close.2.ended := by
  have hwake := wakeAll_renumber ρ (g + 1) none
    { b with state := { b.state.nextGeneration with closed := true } }
  exact ⟨congrArg Prod.fst hwake, congrArg (·.2.ended) hwake⟩

theorem read_renumber (b : Buffer) (r : Reader) :
    ((b.renumber ρ g timer).read (r.renumber ρ)).1 = (b.read r).1.renumber ρ g timer
      ∧ ((b.renumber ρ g timer).read (r.renumber ρ)).2.ended
        = renumberEnded ρ (b.read r).2.ended := by
  have hread : (b.renumber ρ g timer).read (r.renumber ρ)
      = Prod.map (renumber ρ g timer) (Effects.renumber ρ) (b.read r) := by
    rw [read, read, ← accept_renumber, ← Reader.start_renumber]
    rfl
  exact ⟨congrArg Prod.fst hread, congrArg (·.2.ended) hread⟩

/-- So does the first half of a change of the deadline. -/
theorem startDeadline_renumber (b : Buffer) (now : Nat) (deadline : Option Instant) :
    ((b.renumber ρ g timer).startDeadline now deadline).1
        = (b.startDeadline now deadline).1.renumber ρ (g + 1) none
      ∧ ((b.renumber ρ g timer).startDeadline now deadline).2.ended
        = renumberEnded ρ (b.startDeadline now deadline).2.ended := by
  have hwake := wakeAll_renumber ρ (g + 1) none { b with
    state := { b.state.nextGeneration with
      deadlineReached := deadline.any (Instant.hasCome now) } }
  exact ⟨congrArg Prod.fst hwake, congrArg (·.2.ended) hwake⟩

theorem reachDeadline_renumber (b : Buffer) :
    (b.renumber ρ g timer).reachDeadline.1 = b.reachDeadline.1.renumber ρ g timer
      ∧ (b.renumber ρ g timer).reachDeadline.2.ended
        = renumberEnded ρ b.reachDeadline.2.ended := by
  have hwake := wakeAll_renumber ρ g timer
    { b with state := { b.state with deadlineReached := true } }
  exact ⟨congrArg Prod.fst hwake, congrArg (·.2.ended) hwake⟩

end Buffer

end

end StreamBuffer
