/-
  StreamBuffer.Proofs.Buffer.Conservation

  No byte is lost, doubled or moved: over any run of a buffer the bytes copied out,
  in the order of the copies, followed by the bytes still unread, are the bytes
  written, in the order of the writes.

  One action keeps the balance (`copied_append_unread_act`), whoever it wakes and
  however their calls go; a run keeps it by induction on its actions. One move keeps
  it too (`copied_append_unread_move`), so that nothing hangs on the order in which
  woken calls look again, or on how late they do.
-/
import StreamBuffer.Proofs.Buffer.Move

namespace StreamBuffer

/-- The chunk that a move writes: only changes write. -/
def Buffer.Move.chunk : Buffer.Move → Bytes
  | .change a => a.chunk
  | .enter _ _ | .resume _ => []

namespace Buffer

/-! ## Actions -/

/-- The bytes that a list of actions writes, in order. -/
def written (actions : List Action) : Bytes := actions.flatMap Action.chunk

theorem written_cons (a : Action) (rest : List Action) :
    written (a :: rest) = a.chunk ++ written rest := rfl

/-- What one action copies out, followed by what it leaves unread, is what was
    unread before, followed by what the action wrote. -/
theorem copied_append_unread_act (b : Buffer) (a : Action) :
    (b.act a).2.copied ++ (b.act a).1.state.queue.unread
      = b.state.queue.unread ++ a.chunk := by
  obtain ⟨hbuffer, -, hcopied⟩ := act_eq b a
  have hserved := (wake_served (b.changed a) (b.change a).2).copied_append_unread
  rw [hbuffer, hcopied, hserved]
  exact unread_change b a

/-- The same for a run from any buffer: by induction on its actions, with the bytes
    that are unread between two of them carried over. -/
theorem copied_append_unread_runAll (b : Buffer) (actions : List Action) :
    (b.runAll actions).2.copied ++ (b.runAll actions).1.state.queue.unread
      = b.state.queue.unread ++ written actions := by
  induction actions generalizing b with
  | nil => exact (List.append_nil _).symm
  | cons a rest ih =>
    have hact := copied_append_unread_act b a
    have hrest := ih (b.act a).1
    rw [runAll_cons, written_cons, Effects.copied_append, List.append_assoc, hrest,
      ← List.append_assoc, hact, List.append_assoc]

/-! ## Moves -/

/-- The bytes that a list of moves writes, in order. -/
def writtenByMoves (moves : List Move) : Bytes := moves.flatMap Move.chunk

theorem writtenByMoves_cons (m : Move) (rest : List Move) :
    writtenByMoves (m :: rest) = m.chunk ++ writtenByMoves rest := rfl

/-- A change copies nothing out and may write; a look, whoever looks and whatever for,
    takes its bytes from the front and writes nothing. -/
theorem copied_append_unread_move (b : Buffer) (m : Move) :
    (b.move m).2.copied ++ (b.move m).1.state.queue.unread
      = b.state.queue.unread ++ m.chunk := by
  cases m with
  | change a => exact unread_change b a
  | enter id call =>
    have hread := (read_served b { id, call }).copied_append_unread
    exact hread.trans (List.append_nil _).symm
  | resume place =>
    cases hplace : b.waiting[place]? with
    | none =>
      rw [move_resume_of_none hplace]
      exact (List.append_nil _).symm
    | some r =>
      -- who looks again has left the line, which holds no bytes
      let left : Buffer := { b with waiting := b.waiting.eraseIdx place }
      have hserve := (serve_served left r).copied_append_unread
      rw [move_resume_of_getElem? hplace]
      exact hserve.trans (List.append_nil _).symm

/-- By induction on the moves, as for actions. -/
theorem copied_append_unread_runMoves (b : Buffer) (moves : List Move) :
    (b.runMoves moves).2.copied ++ (b.runMoves moves).1.state.queue.unread
      = b.state.queue.unread ++ writtenByMoves moves := by
  induction moves generalizing b with
  | nil => exact (List.append_nil _).symm
  | cons m rest ih =>
    have hmove := copied_append_unread_move b m
    have hrest := ih (b.move m).1
    rw [runMoves_cons, writtenByMoves_cons, Effects.copied_append, List.append_assoc, hrest,
      ← List.append_assoc, hmove, List.append_assoc]

/-! ## Conservation -/

/-- Over every run of a new buffer, the bytes copied out and then those still unread
    are the bytes written. That is so when woken calls look again at once, and also
    when they look late, out of turn or for no cause. -/
theorem copied_append_unread_eq_written (c : Config) :
    (∀ actions : List Action,
      ((ofConfig c).runAll actions).2.copied
          ++ ((ofConfig c).runAll actions).1.state.queue.unread
        = written actions)
      ∧ ∀ moves : List Move,
          ((ofConfig c).runMoves moves).2.copied
              ++ ((ofConfig c).runMoves moves).1.state.queue.unread
            = writtenByMoves moves :=
  ⟨copied_append_unread_runAll (ofConfig c), copied_append_unread_runMoves (ofConfig c)⟩

end Buffer

end StreamBuffer
