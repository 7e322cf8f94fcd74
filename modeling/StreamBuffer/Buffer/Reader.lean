/-
  StreamBuffer.Buffer.Reader

  Read calls in progress. A plain read wants one piece, whatever its size. The
  other calls read again and again through the byte-stream interface: to fill a
  destination, or to collect all bytes up to the end, as bytes or as text.

  A reader is such a call with what it has collected so far. `Reader.proceed`
  runs it on a buffer's state until it ends or finds nothing more; what it left
  unfinished can be taken up again later.

  The reference is `read` of ssh-buffer's `Buffer`, called as it is, through the
  byte-stream interface, or by `read_exact`, `read_to_end` and `read_to_string` on top
  of that interface (`Call.fill`, `Call.toEnd` and `Call.toText`).
-/
import StreamBuffer.Buffer.State

namespace StreamBuffer

/-! ## Calls and their outcomes -/

/-- The size of the next piece that a collecting call asks for, by the number of
    bytes it has; always some. -/
structure PieceSizes where
  size : Nat → Nat
  size_pos : ∀ got, 0 < size got

/-- Pieces as large as what is there already, and never small. -/
def PieceSizes.doubling : PieceSizes where
  size got := max 32 got
  size_pos got := by omega

/-- A read call: one piece directly or through the byte-stream interface, a
    destination filled, or everything up to the end as bytes or as text. -/
inductive Call where
  | read (n : Nat)
  | stream (n : Nat)
  | fill (n : Nat)
  | toEnd (pieces : PieceSizes)
  | toText (pieces : PieceSizes)

/-- The call may look more than once after it has taken bytes. -/
def Call.repeats : Call → Bool
  | .read _ | .stream _ => false
  | .fill _ | .toEnd _ | .toText _ => true

/-- How a read call ended. Bytes collected up to a failure are kept; a
    destination that was only filled in part is given up. -/
inductive Outcome where
  | bytes (got : Bytes)
  | readFailed (error : ReadError)
  | streamFailed (error : StreamError)
  | collected (got : Bytes) (error : Option StreamError)
  | text (got : Bytes) (text : String) (error : Option StreamError)
  deriving Repr, DecidableEq

/-- The outcome of collecting text. A failure met on the way counts before bytes
    that are no text, and no text is given for those. -/
def Outcome.ofText (got : Bytes) (error : Option StreamError) : Outcome :=
  match String.fromUTF8? got.toByteArray, error with
  | some t, e => .text got t e
  | none, some e => .text got "" (some e)
  | none, none => .text got "" (some .notText)

/-! ## Readers -/

/-- A read call in progress, under its number, with the bytes it has so far. -/
structure Reader where
  id : Nat
  call : Call
  got : Bytes := []

/-- Where an attempt leaves a reader. -/
inductive Progress where
  | ended (outcome : Outcome)
  | onward (r : Reader)
  | waits

namespace Reader

/-- The size of the piece the reader asks for next. -/
def want (r : Reader) : Nat :=
  match r.call with
  | .read n | .stream n => n
  | .fill n => n - r.got.length
  | .toEnd pieces | .toText pieces => pieces.size r.got.length

/-- The reader with more bytes collected. -/
def collect (r : Reader) (bytes : Bytes) : Reader := { r with got := r.got ++ bytes }

/-- What a collecting reader ends with: all it has, and the failure that ended it,
    if any. -/
def finish (r : Reader) (error : Option StreamError) : Outcome :=
  match r.call with
  | .toText _ => .ofText r.got error
  | _ => .collected r.got error

/-- Where an attempt leaves the reader. -/
def settle (r : Reader) (a : Attempt) : Progress :=
  match r.call, a with
  | _, .nothing => .waits
  | .read _, .taken bytes => .ended (.bytes bytes)
  | .read _, .failed e => .ended (.readFailed e)
  | .stream _, .taken bytes => .ended (.bytes bytes)
  | .stream _, .failed .endOfStream => .ended (.bytes [])
  | .fill n, .taken bytes =>
    if n ≤ r.got.length + bytes.length then .ended (.bytes (r.got ++ bytes))
    else .onward (r.collect bytes)
  | .fill _, .failed .endOfStream => .ended (.streamFailed .unfilled)
  | .toEnd _, .taken bytes | .toText _, .taken bytes => .onward (r.collect bytes)
  | .toEnd _, .failed .endOfStream | .toText _, .failed .endOfStream => .ended (r.finish none)
  | .toEnd _, .failed .deadlineExceeded | .toText _, .failed .deadlineExceeded =>
    .ended (r.finish (some (.read .deadlineExceeded)))
  | .stream _, .failed .deadlineExceeded | .fill _, .failed .deadlineExceeded =>
    .ended (.streamFailed (.read .deadlineExceeded))

/-- What an attempt records, whichever call it is made for; a failure is not recorded. -/
def eventsOf (r : Reader) : Attempt → List Event
  | .taken bytes => [.read bytes.length r.call.repeats]
  | .nothing => [.blocking r.call.repeats]
  | .failed _ => []

end Reader

/-- The bytes that an attempt moved out of the queue. -/
def Attempt.bytes : Attempt → Bytes
  | .taken bytes => bytes
  | .failed _ | .nothing => []

/-- How far a reader came: its outcome, or itself as it waits on; the state it
    left; what it recorded; the bytes that went to it. -/
structure Advance where
  standing : Outcome ⊕ Reader
  state : BufferState
  events : List Event := []
  copied : Bytes := []

namespace Reader

/-- Only a piece with bytes in it keeps a reader going. -/
theorem want_pos_of_settle {r r' : Reader} {a : Attempt} (h : r.settle a = .onward r') :
    0 < r.want ∧ ∃ bytes, a = .taken bytes := by
  unfold settle at h
  unfold want
  split at h <;> simp_all
  · split at h
    · simp at h
    · omega
  · exact PieceSizes.size_pos _ _
  · exact PieceSizes.size_pos _ _

/-- One look at the queue for the reader. -/
def look (r : Reader) (s : BufferState) (entering : Bool) : Attempt × BufferState :=
  if entering then s.enter r.want else s.attempt r.want

theorem length_unread_look_lt {r r' : Reader} {s : BufferState} {entering : Bool}
    (h : r.settle (r.look s entering).1 = .onward r') :
    (r.look s entering).2.queue.unread.length < s.queue.unread.length := by
  obtain ⟨hpos, bytes, ha⟩ := want_pos_of_settle h
  have hlook : r.look s entering = (.taken bytes, (r.look s entering).2) := by rw [← ha]
  suffices h' : s.attempt r.want = (.taken bytes, (r.look s entering).2) from
    BufferState.length_unread_lt_of_attempt h' hpos
  unfold look at hlook ⊢
  split at hlook
  · rename_i hent
    simp only [hent, if_true] at hlook ⊢
    exact BufferState.enter_taken hlook
  · rename_i hent
    simp only [hent] at hlook ⊢
    exact hlook

/-- Run a reader until it ends or waits. It enters a read, or goes on with one in
    which it waited; every further read is entered. -/
def proceed (r : Reader) (s : BufferState) (entering : Bool) : Advance :=
  let a := r.look s entering
  match _ : r.settle a.1 with
  | .ended outcome =>
    { standing := .inl outcome, state := a.2, events := r.eventsOf a.1, copied := a.1.bytes }
  | .waits => { standing := .inr r, state := a.2, events := r.eventsOf a.1, copied := a.1.bytes }
  | .onward r' =>
    let rest := r'.proceed a.2 true
    { rest with events := r.eventsOf a.1 ++ rest.events, copied := a.1.bytes ++ rest.copied }
termination_by s.queue.unread.length
decreasing_by exact length_unread_look_lt ‹_›

theorem proceed_of_ended {r : Reader} {s : BufferState} {entering : Bool} {outcome : Outcome}
    (h : r.settle (r.look s entering).1 = .ended outcome) :
    r.proceed s entering =
      { standing := .inl outcome
        state := (r.look s entering).2
        events := r.eventsOf (r.look s entering).1
        copied := (r.look s entering).1.bytes } := by
  rw [proceed]
  split <;> simp_all

theorem proceed_of_waits {r : Reader} {s : BufferState} {entering : Bool}
    (h : r.settle (r.look s entering).1 = .waits) :
    r.proceed s entering =
      { standing := .inr r
        state := (r.look s entering).2
        events := r.eventsOf (r.look s entering).1
        copied := (r.look s entering).1.bytes } := by
  rw [proceed]
  split <;> simp_all

/-- After a piece that was not the last, the reader enters a further read. -/
theorem proceed_of_onward {r r' : Reader} {s : BufferState} {entering : Bool}
    (h : r.settle (r.look s entering).1 = .onward r') :
    r.proceed s entering =
      { r'.proceed (r.look s entering).2 true with
        events := r.eventsOf (r.look s entering).1
          ++ (r'.proceed (r.look s entering).2 true).events
        copied := (r.look s entering).1.bytes
          ++ (r'.proceed (r.look s entering).2 true).copied } := by
  rw [proceed]
  split <;> simp_all

/-- Start a call. To fill an empty destination takes no read at all. -/
def start (r : Reader) (s : BufferState) : Advance :=
  match r.call with
  | .fill 0 => { standing := .inl (.bytes []), state := s }
  | _ => r.proceed s true

/-- Take up a call that waited. -/
def resume (r : Reader) (s : BufferState) : Advance := r.proceed s false

end Reader

end StreamBuffer
