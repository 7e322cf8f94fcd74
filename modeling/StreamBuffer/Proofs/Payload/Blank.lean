/-
  StreamBuffer.Proofs.Payload.Blank

  Buffers whose payload is blanked out: every byte is zero, and all lengths stay.

  Whatever is done to a buffer can be done to the blank one, and comes to the same with
  its payload blanked out: each operation commutes with `blank`. So nothing that a buffer
  does, and nothing that it shows but the bytes themselves, hangs on a byte's value. The
  one place where bytes are looked at is the outcome of collecting text; the blank outcome
  is that of the same call on blank bytes (`Outcome.blank`), in which the looking is gone.

  One lemma for each function, from segments up to the operations on a buffer.
-/
import StreamBuffer.Buffer.Basic

namespace StreamBuffer

/-! ## Bytes and segments -/

/-- As many bytes, all of them zero. -/
def Bytes.blank (bytes : Bytes) : Bytes := bytes.map fun _ => 0

@[simp] theorem Bytes.length_blank (bytes : Bytes) : (Bytes.blank bytes).length = bytes.length :=
  List.length_map _

@[simp] theorem Bytes.blank_eq_nil_iff (bytes : Bytes) : Bytes.blank bytes = [] ↔ bytes = [] :=
  List.map_eq_nil_iff

@[simp] theorem Bytes.blank_append (first second : Bytes) :
    Bytes.blank (first ++ second) = Bytes.blank first ++ Bytes.blank second := List.map_append

/-- The length is all that blank bytes tell. -/
theorem Bytes.blank_eq_blank_iff {bytes bytes' : Bytes} :
    Bytes.blank bytes = Bytes.blank bytes' ↔ bytes.length = bytes'.length := by
  rw [Bytes.blank, Bytes.blank, List.map_const', List.map_const', List.replicate_inj]
  simp

namespace Segment

/-- The segment with its bytes blanked out. -/
def blank (s : Segment) : Segment := { s with data := Bytes.blank s.data }

@[simp] theorem unread_blank (s : Segment) : s.blank.unread = Bytes.blank s.unread := by
  rw [unread, unread, blank, Bytes.blank, Bytes.blank, List.map_drop]

@[simp] theorem advance_blank (s : Segment) (n : Nat) : s.blank.advance n = (s.advance n).blank :=
  rfl

theorem drain_blank (room : Nat) (segments : List Segment) :
    drain room (segments.map blank)
      = (Bytes.blank (drain room segments).1, (drain room segments).2.map blank) := by
  fun_induction drain room segments with
  | case1 room => cases room <;> rfl
  | case2 segments hne =>
    cases segments with
    | nil => exact absurd rfl hne
    | cons s rest => rfl
  | case3 room s rest hs ih => simp [drain, hs, ih]
  | case4 room s rest hs hle =>
    have htake : (Bytes.blank s.unread).take (room + 1) = Bytes.blank (s.unread.take (room + 1)) :=
      List.map_take.symm
    simp [drain, hs, hle, htake]
  | case5 room s rest hs hle bytes left hrec ih =>
    rw [hrec] at ih
    simp [drain, hs, hle, ih]

end Segment

namespace SegmentQueue

/-- The queue with its bytes blanked out. -/
def blank (q : SegmentQueue) : SegmentQueue := { segments := q.segments.map Segment.blank }

@[simp] theorem append_blank (q : SegmentQueue) (chunk : Bytes) :
    q.blank.append (Bytes.blank chunk) = (q.append chunk).blank := by
  simp [append, blank, Segment.blank]

@[simp] theorem drain_blank (q : SegmentQueue) (n : Nat) :
    q.blank.drain n = (Bytes.blank (q.drain n).1, (q.drain n).2.blank) := by
  simp only [drain, blank, Segment.drain_blank]

@[simp] theorem segmentCount_blank (q : SegmentQueue) : q.blank.segmentCount = q.segmentCount :=
  List.length_map _

@[simp] theorem isEmpty_blank (q : SegmentQueue) : q.blank.isEmpty = q.isEmpty := by
  rw [isEmpty, isEmpty, blank, List.all_map]
  refine congrArg q.segments.all (funext fun s => ?_)
  rw [Function.comp_apply, Segment.unread_blank]
  exact List.isEmpty_map

end SegmentQueue

/-! ## States and attempts -/

/-- The attempt with its bytes blanked out. -/
def Attempt.blank : Attempt → Attempt
  | .taken bytes => .taken (Bytes.blank bytes)
  | .failed e => .failed e
  | .nothing => .nothing

@[simp] theorem Attempt.bytes_blank (a : Attempt) : a.blank.bytes = Bytes.blank a.bytes := by
  cases a <;> rfl

namespace BufferState

/-- The state with its queue blanked out. -/
def blank (s : BufferState) : BufferState := { s with queue := s.queue.blank }

/-- A summary shows nothing of the payload. -/
@[simp] theorem summary_blank (s : BufferState) : s.blank.summary = s.summary := by
  simp [summary, blank]

@[simp] theorem verdict_blank (s : BufferState) (n : Nat) (bytes : Bytes) :
    s.blank.verdict n (Bytes.blank bytes) = (s.verdict n bytes).blank := by
  simp only [verdict, ne_eq, Bytes.blank_eq_nil_iff]
  split
  · rfl
  · show (if s.closed then _ else if s.deadlineReached then _ else _) = Attempt.blank _
    split
    · rfl
    · split <;> rfl

theorem attempt_blank (s : BufferState) (n : Nat) :
    s.blank.attempt n = ((s.attempt n).1.blank, (s.attempt n).2.blank) := by
  have hdrain := SegmentQueue.drain_blank s.queue n
  simp only [attempt]
  show (s.blank.verdict n (s.queue.blank.drain n).1,
    { s.blank with queue := (s.queue.blank.drain n).2 }) = _
  rw [hdrain, verdict_blank]
  rfl

theorem enter_blank (s : BufferState) (n : Nat) :
    s.blank.enter n = ((s.enter n).1.blank, (s.enter n).2.blank) := by
  simp only [enter, attempt_blank]
  show (if s.deadlineReached then _ else _) = _
  split <;> rfl

end BufferState

/-! ## Readers -/

/-- The outcome of the same call on blank bytes; those are a text. -/
def Outcome.blank : Outcome → Outcome
  | .bytes got => .bytes (Bytes.blank got)
  | .readFailed e => .readFailed e
  | .streamFailed e => .streamFailed e
  | .collected got e => .collected (Bytes.blank got) e
  | .text got _ e => .ofText (Bytes.blank got) (if e = some .notText then none else e)

theorem Outcome.blank_ofText (got : Bytes) {e : Option StreamError} (he : e ≠ some .notText) :
    (Outcome.ofText got e).blank = .ofText (Bytes.blank got) e := by
  cases htext : String.fromUTF8? got.toByteArray with
  | some t => simp only [ofText, htext, blank, if_neg he]
  | none =>
    cases e with
    | some e => simp only [ofText, htext, blank, if_neg he]
    | none => simp only [ofText, htext, blank, if_true]

/-- The reader with the bytes that it has so far blanked out. -/
def Reader.blank (r : Reader) : Reader := { r with got := Bytes.blank r.got }

/-- The same progress of the blank reader. -/
def Progress.blank : Progress → Progress
  | .ended outcome => .ended outcome.blank
  | .onward r => .onward r.blank
  | .waits => .waits

namespace Reader

@[simp] theorem want_blank (r : Reader) : r.blank.want = r.want := by
  simp only [want, blank, Bytes.length_blank]

@[simp] theorem finish_blank (r : Reader) {e : Option StreamError} (he : e ≠ some .notText) :
    r.blank.finish e = (r.finish e).blank := by
  simp only [finish, blank]
  split
  · exact (Outcome.blank_ofText r.got he).symm
  · rfl

theorem settle_blank (r : Reader) (a : Attempt) : r.blank.settle a.blank = (r.settle a).blank := by
  obtain ⟨id, call, got⟩ := r
  have hdeadline : some (StreamError.read .deadlineExceeded) ≠ some .notText := by simp
  cases a with
  | nothing => rfl
  | taken bytes =>
    cases call with
    | fill n =>
      simp only [settle, blank, Attempt.blank, Bytes.length_blank]
      split
      · simp [Progress.blank, Outcome.blank]
      · simp [Progress.blank, collect, blank]
    | _ => simp [settle, blank, Attempt.blank, Progress.blank, Outcome.blank, collect]
  | failed e =>
    cases e with
    | endOfStream =>
      cases call with
      | toEnd pieces => rfl
      | toText pieces => exact congrArg Progress.ended (finish_blank _ (by simp))
      | _ => rfl
    | deadlineExceeded =>
      cases call with
      | toText pieces => exact congrArg Progress.ended (finish_blank _ hdeadline)
      | _ => rfl

theorem eventsOf_blank (r : Reader) (a : Attempt) : r.blank.eventsOf a.blank = r.eventsOf a := by
  obtain ⟨id, call, got⟩ := r
  cases call <;> cases a <;> simp [eventsOf, blank, Attempt.blank]

theorem look_blank (r : Reader) (s : BufferState) (entering : Bool) :
    r.blank.look s.blank entering
      = ((r.look s entering).1.blank, (r.look s entering).2.blank) := by
  rw [look, look, want_blank]
  split
  · exact s.enter_blank r.want
  · exact s.attempt_blank r.want

end Reader

/-- How far the blank reader came. -/
def Advance.blank (a : Advance) : Advance where
  standing := a.standing.map Outcome.blank Reader.blank
  state := a.state.blank
  events := a.events
  copied := Bytes.blank a.copied

namespace Reader

/-- A whole run, by induction on its looks at the queue. -/
theorem proceed_blank (r : Reader) (s : BufferState) (entering : Bool) :
    r.blank.proceed s.blank entering = (r.proceed s entering).blank := by
  fun_induction proceed r s entering with
  | case1 r s entering a outcome h =>
    have hsettle : r.blank.settle (r.blank.look s.blank entering).1 = .ended outcome.blank := by
      rw [look_blank, settle_blank, h]
      rfl
    rw [proceed_of_ended hsettle, look_blank, eventsOf_blank]
    simp [Advance.blank, a]
  | case2 r s entering a h =>
    have hsettle : r.blank.settle (r.blank.look s.blank entering).1 = .waits := by
      rw [look_blank, settle_blank, h]
      rfl
    rw [proceed_of_waits hsettle, look_blank, eventsOf_blank]
    simp [Advance.blank, a]
  | case3 r s entering a r' h rest ih =>
    have hsettle : r.blank.settle (r.blank.look s.blank entering).1 = .onward r'.blank := by
      rw [look_blank, settle_blank, h]
      rfl
    rw [proceed_of_onward hsettle, look_blank, eventsOf_blank]
    show { r'.blank.proceed a.2.blank true with
      events := r.eventsOf a.1 ++ (r'.blank.proceed a.2.blank true).events
      copied := a.1.blank.bytes ++ (r'.blank.proceed a.2.blank true).copied } = _
    rw [ih]
    simp [Advance.blank, rest]

theorem start_blank (r : Reader) (s : BufferState) :
    r.blank.start s.blank = (r.start s).blank := by
  obtain ⟨id, call, got⟩ := r
  have hproceed := proceed_blank { id, call, got } s true
  cases call with
  | fill n =>
    cases n with
    | zero => rfl
    | succ n => exact hproceed
  | _ => exact hproceed

theorem resume_blank (r : Reader) (s : BufferState) :
    r.blank.resume s.blank = (r.resume s).blank := proceed_blank r s false

end Reader

/-! ## Effects and buffers -/

/-- Calls that ended, with blank outcomes. -/
def blankEnded (ended : List (Nat × Outcome)) : List (Nat × Outcome) :=
  ended.map (Prod.map id Outcome.blank)

/-- The effects with the payload blanked out; events show none of it. -/
def Effects.blank (e : Effects) : Effects where
  events := e.events
  ended := blankEnded e.ended
  released := e.released
  copied := Bytes.blank e.copied

@[simp] theorem Effects.blank_append (e₁ e₂ : Effects) :
    (e₁ ++ e₂).blank = e₁.blank ++ e₂.blank := by
  show Effects.blank (Effects.append e₁ e₂) = Effects.append e₁.blank e₂.blank
  simp [Effects.append, blank, blankEnded]

namespace Buffer

/-- The buffer with its queue and its readers blanked out. -/
def blank (b : Buffer) : Buffer where
  threadName := b.threadName
  state := b.state.blank
  waiting := b.waiting.map Reader.blank

@[simp] theorem waitingIds_blank (b : Buffer) : b.blank.waitingIds = b.waitingIds := by
  rw [waitingIds, waitingIds, blank, List.map_map]
  rfl

/-- An operation does to the blank buffer what it does to the buffer, but for the
    payload. -/
def Commutes (f g : Buffer → Buffer × Effects) : Prop :=
  ∀ b, g b.blank = Prod.map blank Effects.blank (f b)

theorem accept_blank (b : Buffer) (id : Nat) (a : Advance) :
    b.blank.accept id a.blank = Prod.map blank Effects.blank (b.accept id a) := by
  obtain ⟨standing, state, events, copied⟩ := a
  cases standing <;> simp [accept, Advance.blank, blank, Effects.blank, blankEnded]

theorem serve_blank (b : Buffer) (r : Reader) :
    b.blank.serve r.blank = Prod.map blank Effects.blank (b.serve r) := by
  rw [serve, serve, ← accept_blank, ← Reader.resume_blank]
  rfl

theorem serveAll_blank (b : Buffer) (readers : List Reader) :
    b.blank.serveAll (readers.map Reader.blank)
      = Prod.map blank Effects.blank (b.serveAll readers) := by
  induction readers generalizing b with
  | nil => rfl
  | cons r rest ih =>
    simp only [List.map_cons, serveAll, serve_blank, Prod.map_fst, ih]
    simp

theorem wakeAll_blank : Commutes wakeAll wakeAll :=
  fun b => serveAll_blank { b with waiting := [] } b.waiting

theorem wakeOne_blank : Commutes wakeOne wakeOne := by
  intro b
  obtain ⟨threadName, state, waiting⟩ := b
  cases waiting with
  | nil => rfl
  | cons r rest => exact serve_blank { threadName, state, waiting := rest } r

/-- What is recorded and given up before the readers run shows no payload. -/
theorem map_blank_append {out : Buffer × Effects} (events : List Event) (released : List Nat) :
    ((Prod.map blank Effects.blank out).1,
        ({ events, released } : Effects) ++ (Prod.map blank Effects.blank out).2)
      = Prod.map blank Effects.blank (out.1, ({ events, released } : Effects) ++ out.2) := by
  simp only [Prod.map, Effects.blank_append]
  rfl

theorem write_blank (chunk : Bytes) :
    Commutes (·.write chunk) (·.write (Bytes.blank chunk)) := by
  intro b
  have hwake := wakeOne_blank
    { b with state := { b.state with queue := b.state.queue.append chunk } }
  have hstate : ({ b.blank with
      state := { b.blank.state with queue := b.blank.state.queue.append (Bytes.blank chunk) } } :
        Buffer) = ({ b with
          state := { b.state with queue := b.state.queue.append chunk } } : Buffer).blank := by
    simp [blank, BufferState.blank]
  simp only [write, hstate, hwake, Bytes.length_blank]
  exact map_blank_append _ _

theorem close_blank : Commutes close close := by
  intro b
  have hwake := wakeAll_blank { b with state := { b.state.nextGeneration with closed := true } }
  have hstate : ({ b.blank with
      state := { b.blank.state.nextGeneration with closed := true } } : Buffer)
      = ({ b with state := { b.state.nextGeneration with closed := true } } : Buffer).blank := rfl
  simp only [close, hstate, hwake]
  exact map_blank_append _ _

theorem read_blank (r : Reader) : Commutes (·.read r) (·.read r.blank) := by
  intro b
  show b.blank.accept r.id (r.blank.start b.state.blank) = _
  rw [Reader.start_blank]
  exact accept_blank b r.id _

theorem startDeadline_blank (now : Nat) (deadline : Option Instant) :
    Commutes (·.startDeadline now deadline) (·.startDeadline now deadline) := by
  intro b
  have hwake := wakeAll_blank { b with
    state := { b.state.nextGeneration with
      deadlineReached := deadline.any (Instant.hasCome now) } }
  have hstate : ({ b.blank with
      state := { b.blank.state.nextGeneration with
        deadlineReached := deadline.any (Instant.hasCome now) } } : Buffer)
      = ({ b with
          state := { b.state.nextGeneration with
            deadlineReached := deadline.any (Instant.hasCome now) } } : Buffer).blank := rfl
  simp only [startDeadline, hstate, hwake]
  exact map_blank_append _ _

theorem install_blank (generation : UInt64) (timer : Nat) :
    Commutes (·.install generation timer) (·.install generation timer) := by
  intro b
  simp only [install]
  show (if b.state.generation = generation ∧ b.state.deadlineReached = false then _ else _) = _
  split <;> rfl

theorem reachDeadline_blank : Commutes reachDeadline reachDeadline :=
  fun b => wakeAll_blank { b with state := { b.state with deadlineReached := true } }

theorem startRefused_blank (generation : UInt64) :
    Commutes (·.startRefused generation) (·.startRefused generation) := by
  intro b
  simp only [startRefused, reachDeadline_blank b]
  show (if b.state.generation = generation then _ else _) = _
  split
  · exact map_blank_append _ _
  · rfl

theorem fire_blank (generation : UInt64) :
    Commutes (·.fire generation) (·.fire generation) := by
  intro b
  have hreach := reachDeadline_blank { b with state := { b.state with timer := none } }
  have hstate : ({ b.blank with state := { b.blank.state with timer := none } } : Buffer)
      = ({ b with state := { b.state with timer := none } } : Buffer).blank := rfl
  simp only [fire, hstate, hreach]
  show (if b.state.generation = generation then _ else _) = _
  split
  · exact map_blank_append _ _
  · rfl

end Buffer

end StreamBuffer
