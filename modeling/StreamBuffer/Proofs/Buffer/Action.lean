/-
  StreamBuffer.Proofs.Buffer.Action

  The actions on a buffer as data, and runs of them.

  An action is one critical section under the buffer's lock together with the
  readers that it lets run. Their order is free: nothing here asks that a second
  half follows its first half at once, that a timer's callback comes only once, or
  that a generation handed in was ever current. Every order in which several calls
  can overlap is the order of some list of actions.

  `act_eq` says once what an action does: it changes the state (`Buffer.change`),
  and then readers run (`Buffer.wake`). Facts about all actions follow from a fact
  about the change and one about the readers.
-/
import StreamBuffer.Proofs.Buffer.Waking

namespace StreamBuffer

/-! ## Actions -/

/-- An action on a buffer. The last one is that of the buffer's last owner, who
    gives up the installed timer; further handles come and go without the buffer. -/
inductive Buffer.Action where
  | write (chunk : Bytes)
  | close
  | read (id : Nat) (call : Call)
  | startDeadline (now : Nat) (deadline : Option Instant)
  | install (generation : UInt64) (timer : Nat)
  | startRefused (generation : UInt64)
  | fire (generation : UInt64)
  | abandon

/-- The bytes that an action writes. -/
def Buffer.Action.chunk : Buffer.Action → Bytes
  | .write chunk => chunk
  | _ => []

namespace Buffer

/-- The last owner is gone: the installed timer is given up. -/
def abandon (b : Buffer) : Buffer × Effects :=
  ({ b with state := { b.state with timer := none } }, { released := b.state.timer.toList })

/-- Carry out an action. -/
def act (b : Buffer) : Action → Buffer × Effects
  | .write chunk => b.write chunk
  | .close => b.close
  | .read id call => b.read { id, call }
  | .startDeadline now deadline => b.startDeadline now deadline
  | .install generation timer => b.install generation timer
  | .startRefused generation => b.startRefused generation
  | .fire generation => b.fire generation
  | .abandon => b.abandon

/-- Carry out actions one after the other. -/
def runAll (b : Buffer) : List Action → Buffer × Effects
  | [] => (b, {})
  | a :: rest =>
    let (b, e₁) := b.act a
    let (b, e₂) := b.runAll rest
    (b, e₁ ++ e₂)

theorem runAll_cons (b : Buffer) (a : Action) (rest : List Action) :
    b.runAll (a :: rest)
      = (((b.act a).1.runAll rest).1, (b.act a).2 ++ ((b.act a).1.runAll rest).2) := rfl

/-- A run cut in two. -/
theorem runAll_append_fst (b : Buffer) (as bs : List Action) :
    (b.runAll (as ++ bs)).1 = ((b.runAll as).1.runAll bs).1 := by
  induction as generalizing b with
  | nil => rfl
  | cons a rest ih => exact ih (b.act a).1

/-- A buffer that some run makes of a new one. -/
def Reachable (b : Buffer) : Prop := ∃ c actions, b = ((ofConfig c).runAll actions).1

theorem Reachable.ofConfig (c : Config) : (Buffer.ofConfig c).Reachable := ⟨c, [], rfl⟩

theorem Reachable.act {b : Buffer} (h : b.Reachable) (a : Action) : (b.act a).1.Reachable := by
  obtain ⟨c, actions, rfl⟩ := h
  refine ⟨c, actions ++ [a], ?_⟩
  rw [runAll_append_fst]
  rfl

/-- What a new buffer satisfies and every action keeps, every reachable buffer
    satisfies. -/
theorem Reachable.induction {P : Buffer → Prop} (hnew : ∀ c, P (Buffer.ofConfig c))
    (hact : ∀ b a, P b → P (b.act a).1) {b : Buffer} (h : b.Reachable) : P b := by
  obtain ⟨c, actions, rfl⟩ := h
  -- by induction on the run, from any buffer that satisfies it
  suffices hrun : ∀ b : Buffer, P b → P (b.runAll actions).1 from hrun _ (hnew c)
  intro b hb
  induction actions generalizing b with
  | nil => exact hb
  | cons a rest ih => exact ih _ (hact b a hb)

/-! ## What an action does -/

/-- Which readers an action lets run: none, the one that has waited longest, all
    that wait, or one that only starts. -/
inductive Waking where
  | nobody
  | longest
  | everybody
  | newcomer (r : Reader)

/-- Let these readers run. -/
def wake (b : Buffer) : Waking → Buffer × Effects
  | .nobody => (b, {})
  | .longest => b.wakeOne
  | .everybody => b.wakeAll
  | .newcomer r => b.read r

/-- What an action makes of the state before a reader runs, and which readers then
    run. -/
def change (b : Buffer) : Action → BufferState × Waking
  | .write chunk => ({ b.state with queue := b.state.queue.append chunk }, .longest)
  | .close => ({ b.state.nextGeneration with closed := true }, .everybody)
  | .read id call => (b.state, .newcomer { id, call })
  | .startDeadline now deadline =>
    ({ b.state.nextGeneration with deadlineReached := deadline.any (Instant.hasCome now) },
      .everybody)
  | .install generation timer =>
    if b.state.generation = generation ∧ b.state.deadlineReached = false then
      ({ b.state with timer := some timer }, .nobody)
    else (b.state, .nobody)
  | .startRefused generation =>
    if b.state.generation = generation then
      ({ b.state with deadlineReached := true }, .everybody)
    else (b.state, .nobody)
  | .fire generation =>
    if b.state.generation = generation then
      ({ b.state with timer := none, deadlineReached := true }, .everybody)
    else (b.state, .nobody)
  | .abandon => ({ b.state with timer := none }, .nobody)

/-- The buffer after an action's change, with the readers still to run. -/
def changed (b : Buffer) (a : Action) : Buffer := { b with state := (b.change a).1 }

/-- What an action records and which timers it gives up, before a reader runs. -/
def notice (b : Buffer) (a : Action) : Effects where
  events := match a with
    | .write chunk => [.wrote chunk.length]
    | .close => if b.state.closed then [] else [.closed]
    | .startDeadline _ none => [.deadlineCleared]
    | .startDeadline now (some deadline) =>
      if deadline.hasCome now then [.deadlinePassed] else []
    | .install generation _ =>
      if b.state.generation = generation ∧ b.state.deadlineReached = false then
        [.deadlineArmed generation]
      else []
    | .startRefused _ => [.startRefused]
    | .fire generation =>
      if b.state.generation = generation then [.deadlineReached generation]
      else [.deadlineStale generation]
    | .read _ _ | .abandon => []
  released := match a with
    | .close | .startDeadline _ _ | .abandon => b.state.timer.toList
    | .install generation timer =>
      if b.state.generation = generation ∧ b.state.deadlineReached = false then
        b.state.timer.toList
      else [timer]
    | .fire generation => if b.state.generation = generation then b.state.timer.toList else []
    | .write _ | .read _ _ | .startRefused _ => []

/-- An action is its change and then the readers' runs. -/
theorem act_eq_wake (b : Buffer) (a : Action) :
    b.act a = (((b.changed a).wake (b.change a).2).1,
      b.notice a ++ ((b.changed a).wake (b.change a).2).2) := by
  have hnobody : ∀ e : Effects, e ++ {} = e := by
    intro e
    show Effects.append e {} = e
    simp [Effects.append]
  cases a with
  | write chunk => rfl
  | close => rfl
  | read id call => rfl
  | startDeadline now deadline => cases deadline <;> rfl
  | install generation timer =>
    simp only [act, install, changed, change, notice]
    split <;> simp only [wake, hnobody]
  | startRefused generation =>
    simp only [act, startRefused, changed, change, notice]
    split
    · rfl
    · simp only [wake, hnobody]
  | fire generation =>
    simp only [act, fire, changed, change, notice]
    split
    · rfl
    · simp only [wake, hnobody]
  | abandon => exact congrArg (Prod.mk _) (hnobody _).symm

/-- The readers alone end calls and copy bytes out. -/
theorem act_eq (b : Buffer) (a : Action) :
    (b.act a).1 = ((b.changed a).wake (b.change a).2).1
      ∧ (b.act a).2.ended = ((b.changed a).wake (b.change a).2).2.ended
      ∧ (b.act a).2.copied = ((b.changed a).wake (b.change a).2).2.copied := by
  rw [act_eq_wake]
  exact ⟨rfl, rfl, rfl⟩

/-- The queue of the change has the action's bytes behind those that were unread. -/
theorem unread_change (b : Buffer) (a : Action) :
    (b.change a).1.queue.unread = b.state.queue.unread ++ a.chunk := by
  cases a with
  | write chunk => exact SegmentQueue.unread_append b.state.queue chunk
  | close => exact (List.append_nil _).symm
  | read id call => exact (List.append_nil _).symm
  | startDeadline now deadline => exact (List.append_nil _).symm
  | install generation timer =>
    simp only [change]
    split <;> exact (List.append_nil _).symm
  | startRefused generation =>
    simp only [change]
    split <;> exact (List.append_nil _).symm
  | fire generation =>
    simp only [change]
    split <;> exact (List.append_nil _).symm
  | abandon => exact (List.append_nil _).symm

/-- Whoever writes wakes the reader that has waited longest. -/
theorem chunk_eq_nil {b : Buffer} {a : Action} (h : (b.change a).2 ≠ .longest) :
    a.chunk = [] := by
  cases a with
  | write chunk => exact absurd rfl h
  | _ => rfl

/-- An action that touches a flag wakes everybody. -/
theorem flags_change (b : Buffer) (a : Action) :
    (b.change a).2 = .everybody
      ∨ ((b.change a).1.closed = b.state.closed
          ∧ (b.change a).1.deadlineReached = b.state.deadlineReached) := by
  cases a with
  | write chunk => exact Or.inr ⟨rfl, rfl⟩
  | close => exact Or.inl rfl
  | read id call => exact Or.inr ⟨rfl, rfl⟩
  | startDeadline now deadline => exact Or.inl rfl
  | install generation timer =>
    right
    simp only [change]
    split <;> exact ⟨rfl, rfl⟩
  | startRefused generation =>
    simp only [change]
    split
    · exact Or.inl rfl
    · exact Or.inr ⟨rfl, rfl⟩
  | fire generation =>
    simp only [change]
    split
    · exact Or.inl rfl
    · exact Or.inr ⟨rfl, rfl⟩
  | abandon => exact Or.inr ⟨rfl, rfl⟩

/-! ## The readers of an action -/

theorem wake_served (b : Buffer) (w : Waking) : b.Served (b.wake w) := by
  cases w with
  | nobody => exact Served.refl b
  | longest => exact wakeOne_served b
  | everybody => exact wakeAll_served b
  | newcomer r => exact read_served b r

/-- After an action the flags, the timer and the generation are those of its
    change. -/
theorem control_act (b : Buffer) (a : Action) :
    (b.act a).1.state.control = (b.change a).1.control := by
  rw [(act_eq b a).1]
  exact (wake_served (b.changed a) _).control_eq

theorem fields_act (b : Buffer) (a : Action) :
    (b.act a).1.state.closed = (b.change a).1.closed
      ∧ (b.act a).1.state.deadlineReached = (b.change a).1.deadlineReached
      ∧ (b.act a).1.state.timer = (b.change a).1.timer
      ∧ (b.act a).1.state.generation = (b.change a).1.generation :=
  BufferState.fields_of_control_eq (control_act b a)

/-- No action renames a buffer's timer threads. -/
theorem threadName_act (b : Buffer) (a : Action) : (b.act a).1.threadName = b.threadName := by
  rw [(act_eq b a).1]
  exact (wake_served (b.changed a) _).threadName_eq

/-- Where one reader ran, who waits is stuck or stood in the line before. -/
theorem stuck_or_mem_of_waiting {b : Buffer} {line : List Reader} {r : Reader}
    (hline : b.waiting = line ∨ ∃ r', b.waiting = line ++ [r'] ∧ r'.Stuck b.state)
    (hmem : r ∈ b.waiting) : r.Stuck b.state ∨ r ∈ line := by
  rcases hline with hwaiting | ⟨r', hwaiting, hstuck⟩
  · rw [hwaiting] at hmem
    exact Or.inr hmem
  · rw [hwaiting] at hmem
    rcases List.mem_append.mp hmem with hmem | hmem
    · exact Or.inr hmem
    · rw [List.mem_singleton.mp hmem]
      exact Or.inl hstuck

/-- Who waits after an action is stuck, or waited before it and was not woken. -/
theorem stuck_of_waiting_act {b : Buffer} {a : Action} {r : Reader}
    (h : r ∈ (b.act a).1.waiting) :
    r.Stuck (b.act a).1.state
      ∨ (r ∈ b.waiting ∧ (b.change a).2 ≠ .everybody
          ∧ ((b.change a).2 = .longest → r ∈ b.waiting.tail)) := by
  rw [(act_eq b a).1] at h ⊢
  cases hw : (b.change a).2 with
  | nobody =>
    rw [hw] at h
    exact Or.inr ⟨h, by simp, by simp⟩
  | longest =>
    rw [hw] at h
    -- the line is what stood behind the woken reader
    rcases stuck_or_mem_of_waiting (waiting_wakeOne (b.changed a)) h with hstuck | hmem
    · exact Or.inl hstuck
    · exact Or.inr ⟨List.mem_of_mem_tail hmem, by simp, fun _ => hmem⟩
  | everybody =>
    rw [hw] at h
    have hstuck := (waiting_wakeAll (b.changed a)).2 r h
    exact Or.inl hstuck
  | newcomer new =>
    rw [hw] at h
    have hline : ((b.changed a).read new).1.waiting = b.waiting
        ∨ ∃ r', ((b.changed a).read new).1.waiting = b.waiting ++ [r']
            ∧ r'.Stuck ((b.changed a).read new).1.state := by
      rcases waiting_read (b.changed a) new with hdone | ⟨r', hbehind, -, hstuck⟩
      · exact Or.inl hdone
      · exact Or.inr ⟨r', hbehind, hstuck⟩
    rcases stuck_or_mem_of_waiting hline h with hstuck | hmem
    · exact Or.inl hstuck
    · exact Or.inr ⟨hmem, by simp, by simp⟩

end Buffer

end StreamBuffer
