/-
  StreamBuffer.Proofs.Buffer.Move

  Actions taken apart. A move is the run of one party under the buffer's lock: the
  change that an action makes, a call that enters, or one waiting call that looks
  again. Nothing ties a call's next look to an action that woke it. It may come late,
  after others have moved, out of the order of the line, or without any cause at all.

  Every run of actions is a run of moves (`exists_runMoves_eq`): an action is its
  change and then the looks of the readers that it wakes. So what holds however the
  moves are mixed holds of actions too.
-/
import StreamBuffer.Proofs.Buffer.Action

namespace StreamBuffer

/-- A move of one party: an action's change, without its wake-ups; a call that enters;
    the call at a place of the line that looks again, woken for whatever reason. -/
inductive Buffer.Move where
  | change (a : Buffer.Action)
  | enter (id : Nat) (call : Call)
  | resume (place : Nat)

namespace Buffer

/-! ## Runs of moves -/

/-- Carry out a move. Who looks again leaves its place in the line. -/
def move (b : Buffer) : Move → Buffer × Effects
  | .change a => (b.changed a, {})
  | .enter id call => b.read { id, call }
  | .resume place =>
    match b.waiting[place]? with
    | none => (b, {})
    | some r => { b with waiting := b.waiting.eraseIdx place }.serve r

/-- Carry out moves one after the other. -/
def runMoves (b : Buffer) : List Move → Buffer × Effects
  | [] => (b, {})
  | m :: rest =>
    let (b, e₁) := b.move m
    let (b, e₂) := b.runMoves rest
    (b, e₁ ++ e₂)

theorem runMoves_cons (b : Buffer) (m : Move) (rest : List Move) :
    b.runMoves (m :: rest)
      = (((b.move m).1.runMoves rest).1, (b.move m).2 ++ ((b.move m).1.runMoves rest).2) := rfl

theorem move_resume_of_getElem? {b : Buffer} {place : Nat} {r : Reader}
    (h : b.waiting[place]? = some r) :
    b.move (.resume place) = { b with waiting := b.waiting.eraseIdx place }.serve r := by
  rw [move, h]

theorem move_resume_of_none {b : Buffer} {place : Nat} (h : b.waiting[place]? = none) :
    b.move (.resume place) = (b, {}) := by
  rw [move, h]

/-! ## The moves of an action -/

/-- Readers in front of the line do not matter to one that runs. -/
theorem serve_of_front (b : Buffer) (front : List Reader) (r : Reader) :
    ({ b with waiting := front ++ b.waiting } : Buffer).serve r
      = ({ (b.serve r).1 with waiting := front ++ (b.serve r).1.waiting }, (b.serve r).2) := by
  simp only [serve, accept]
  -- whether it is done or waits again, it does so behind everybody
  split
  · rfl
  · rw [List.append_assoc]

/-- To wake readers in order is to let the first in line look again, as often as there
    are such readers: by induction on them, the others stand behind. -/
theorem runMoves_replicate_resume (b : Buffer) (readers : List Reader) :
    ({ b with waiting := readers ++ b.waiting } : Buffer).runMoves
        (List.replicate readers.length (.resume 0))
      = b.serveAll readers := by
  induction readers generalizing b with
  | nil => rfl
  | cons r rest ih =>
    -- the first in line looks, and if it waits again it does so behind the whole line
    have hmove : ({ b with waiting := r :: rest ++ b.waiting } : Buffer).move (.resume 0)
        = ({ (b.serve r).1 with waiting := rest ++ (b.serve r).1.waiting }, (b.serve r).2) :=
      serve_of_front b rest r
    rw [List.length_cons, List.replicate_succ, runMoves_cons, hmove, ih (b.serve r).1]
    rfl

/-- Two runs agree in the buffer they leave, in the calls they end, and in the bytes
    they copy out. -/
structure Agree (out₁ out₂ : Buffer × Effects) : Prop where
  buffer_eq : out₁.1 = out₂.1
  ended_eq : out₁.2.ended = out₂.2.ended
  copied_eq : out₁.2.copied = out₂.2.copied

/-- The moves that carry out the wake-ups of an action. -/
def Waking.moves (b : Buffer) : Waking → List Move
  | .nobody => []
  | .longest => [.resume 0]
  | .everybody => List.replicate b.waiting.length (.resume 0)
  | .newcomer r => [.enter r.id r.call]

theorem runMoves_singleton (b : Buffer) (m : Move) : Agree (b.runMoves [m]) (b.move m) := by
  refine ⟨rfl, ?_, ?_⟩
  · show (b.move m).2.ended ++ [] = _
    rw [List.append_nil]
  · show (b.move m).2.copied ++ [] = _
    rw [List.append_nil]

theorem runMoves_moves (b : Buffer) {w : Waking} (hnew : ∀ r, w = .newcomer r → r.got = []) :
    Agree (b.runMoves (w.moves b)) (b.wake w) := by
  cases w with
  | nobody => exact ⟨rfl, rfl, rfl⟩
  | longest =>
    have hmove : b.move (.resume 0) = b.wakeOne := by
      rw [move, wakeOne]
      cases hw : b.waiting with
      | nil => rfl
      | cons r rest => rfl
    show Agree (b.runMoves [.resume 0]) b.wakeOne
    rw [← hmove]
    exact runMoves_singleton b (.resume 0)
  | everybody =>
    -- who waits again stands behind an empty line, since all others are still to look
    have hall := runMoves_replicate_resume { b with waiting := [] } b.waiting
    rw [List.append_nil] at hall
    show Agree (b.runMoves (List.replicate b.waiting.length (.resume 0))) b.wakeAll
    rw [hall]
    exact ⟨rfl, rfl, rfl⟩
  | newcomer r =>
    have hr : ({ id := r.id, call := r.call } : Reader) = r := by
      rw [← hnew r rfl]
    have hmove : b.move (.enter r.id r.call) = b.read r := by
      rw [move, hr]
    show Agree (b.runMoves [.enter r.id r.call]) (b.read r)
    rw [← hmove]
    exact runMoves_singleton b (.enter r.id r.call)

/-- Only a call that begins lets a newcomer run, which has no byte yet. -/
theorem eq_read_of_newcomer {b : Buffer} {a : Action} {r : Reader}
    (h : (b.change a).2 = .newcomer r) : a = .read r.id r.call ∧ r.got = [] := by
  cases a with
  | read id call =>
    rw [change, Waking.newcomer.injEq] at h
    rw [← h]
    exact ⟨rfl, rfl⟩
  | install generation timer =>
    rw [change] at h
    split at h <;> cases h
  | startRefused generation =>
    rw [change] at h
    split at h <;> cases h
  | fire generation =>
    rw [change] at h
    split at h <;> cases h
  | write chunk => cases h
  | close => cases h
  | startDeadline now deadline => cases h
  | abandon => cases h

/-- The moves of an action: its change, and then the looks of those it lets run. -/
def Action.moves (b : Buffer) (a : Action) : List Move :=
  .change a :: (b.change a).2.moves b

/-- A call enters in the moves of the action that begins it, and in no others. -/
theorem enter_mem_moves_iff (b : Buffer) (a : Action) (id : Nat) (call : Call) :
    Move.enter id call ∈ a.moves b ↔ Action.read id call = a := by
  constructor
  · intro h
    have hmem : Move.enter id call ∈ (b.change a).2.moves b := by
      simpa [Action.moves] using h
    cases hw : (b.change a).2 with
    | nobody =>
      rw [hw] at hmem
      cases hmem
    | longest =>
      rw [hw] at hmem
      cases List.mem_singleton.mp hmem
    | everybody =>
      rw [hw] at hmem
      cases List.eq_of_mem_replicate hmem
    | newcomer r =>
      rw [hw] at hmem
      cases List.mem_singleton.mp hmem
      exact (eq_read_of_newcomer hw).1.symm
  · rintro rfl
    exact List.mem_cons_of_mem _ List.mem_cons_self

theorem runMoves_action (b : Buffer) (a : Action) :
    Agree (b.runMoves (a.moves b)) (b.act a) := by
  obtain ⟨hbuffer, hended, hcopied⟩ := act_eq b a
  -- the change moves nobody in the line
  have hwake : Agree ((b.changed a).runMoves ((b.change a).2.moves b))
      ((b.changed a).wake (b.change a).2) :=
    runMoves_moves (b.changed a) fun r hr => (eq_read_of_newcomer hr).2
  refine ⟨?_, ?_, ?_⟩
  · rw [hbuffer]
    exact hwake.buffer_eq
  · rw [hended]
    exact hwake.ended_eq
  · rw [hcopied]
    exact hwake.copied_eq

/-- Moves one after the other, cut in two. -/
theorem runMoves_append (b : Buffer) (first second : List Move) :
    Agree (b.runMoves (first ++ second))
      (((b.runMoves first).1.runMoves second).1,
        (b.runMoves first).2 ++ ((b.runMoves first).1.runMoves second).2) := by
  induction first generalizing b with
  | nil => exact ⟨rfl, rfl, rfl⟩
  | cons m rest ih =>
    obtain ⟨hbuffer, hended, hcopied⟩ := ih (b.move m).1
    refine ⟨hbuffer, ?_, ?_⟩
    · show (b.move m).2.ended ++ ((b.move m).1.runMoves (rest ++ second)).2.ended = _
      rw [hended]
      exact (List.append_assoc _ _ _).symm
    · show (b.move m).2.copied ++ ((b.move m).1.runMoves (rest ++ second)).2.copied = _
      rw [hcopied]
      exact (List.append_assoc _ _ _).symm

/-- A run of actions is a run of moves, in which the same calls enter. -/
theorem exists_runMoves_eq (b : Buffer) (actions : List Action) :
    ∃ moves, Agree (b.runMoves moves) (b.runAll actions)
      ∧ ∀ id call, Move.enter id call ∈ moves ↔ Action.read id call ∈ actions := by
  induction actions generalizing b with
  | nil => exact ⟨[], ⟨rfl, rfl, rfl⟩, by simp⟩
  | cons a rest ih =>
    -- the moves of the rest start from the buffer that the action leaves
    obtain ⟨moves, hrest, henter⟩ := ih (b.act a).1
    have hact := runMoves_action b a
    have hcut := runMoves_append b (a.moves b) moves
    refine ⟨a.moves b ++ moves, ⟨?_, ?_, ?_⟩, ?_⟩
    · rw [hcut.buffer_eq, hact.buffer_eq]
      exact hrest.buffer_eq
    · rw [hcut.ended_eq, hact.buffer_eq, Effects.ended_append, hact.ended_eq, hrest.ended_eq]
      rfl
    · rw [hcut.copied_eq, hact.buffer_eq, Effects.copied_append, hact.copied_eq,
        hrest.copied_eq]
      rfl
    · intro id call
      rw [List.mem_append, List.mem_cons, enter_mem_moves_iff, henter]

end Buffer

end StreamBuffer
