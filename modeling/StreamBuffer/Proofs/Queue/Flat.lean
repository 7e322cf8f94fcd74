/-
  StreamBuffer.Proofs.Queue.Flat

  A queue is a flat byte string, as far as anybody can see.

  What can be asked of a queue is to fill a destination, and whether it is empty. The
  reference `Flat` answers both from one byte string, to which chunks are appended and
  from whose front the copied bytes go; it knows no segments. A queue gives the same
  answers over every run (`runAll_eq_flat`), with its unread bytes for the byte string.

  Hence the cutting of the bytes into chunks does not show. `spelling` is what is left of
  a run without it: the bytes written between one query and the next. A flat run depends
  on its spelling alone (`Flat.runAll_eq_rounds`), and of all that went before on the bytes
  written and the number of bytes copied out (`Flat.runAll_snd`).
-/
import StreamBuffer.Proofs.Queue.Filling

namespace StreamBuffer

namespace SegmentQueue

/-! ## Runs of a queue -/

/-- What can be asked of a queue. -/
inductive Query where
  | fill (dst : Bytes)
  | isEmpty
  deriving Repr, DecidableEq

/-- What a query is answered: the number of bytes copied, with the destination as it is
    then; or whether no byte is left. -/
inductive Answer where
  | filled (count : Nat) (dst : Bytes)
  | emptiness (empty : Bool)
  deriving Repr, DecidableEq

/-- What can be done with a queue. -/
inductive Action where
  | append (chunk : Bytes)
  | ask (query : Query)
  deriving Repr, DecidableEq

/-- The bytes that an action writes. -/
def Action.chunk : Action → Bytes
  | .append chunk => chunk
  | .ask _ => []

/-- The bytes that a list of actions writes, in order. -/
def written (actions : List Action) : Bytes := actions.flatMap Action.chunk

/-- The number of bytes that were copied out, by the answers. -/
def copied : List Answer → Nat
  | [] => 0
  | .filled count _ :: rest => count + copied rest
  | .emptiness _ :: rest => copied rest

/-- Ask a queue. -/
def ask (q : SegmentQueue) : Query → Answer × SegmentQueue
  | .fill dst =>
    let (count, dst, left) := q.drainInto dst
    (.filled count dst, left)
  | .isEmpty => (.emptiness q.isEmpty, q)

/-- Carry out actions one after the other; the answers are those to the queries. -/
def runAll (q : SegmentQueue) : List Action → List Answer × SegmentQueue
  | [] => ([], q)
  | .append chunk :: rest => (q.append chunk).runAll rest
  | .ask query :: rest =>
    let (answer, q) := q.ask query
    let (answers, q) := q.runAll rest
    (answer :: answers, q)

theorem runAll_ask (q : SegmentQueue) (query : Query) (rest : List Action) :
    q.runAll (.ask query :: rest)
      = ((q.ask query).1 :: ((q.ask query).2.runAll rest).1,
          ((q.ask query).2.runAll rest).2) := rfl

/-- A queue that some run makes of a new one. -/
def Reachable (q : SegmentQueue) : Prop := ∃ hint actions, q = ((ofCapacity hint).runAll actions).2

/-- What a new queue satisfies, and appending and draining keep, every reachable queue
    satisfies. -/
theorem Reachable.induction {P : SegmentQueue → Prop} (hnew : ∀ hint, P (ofCapacity hint))
    (happend : ∀ q chunk, P q → P (q.append chunk)) (hdrain : ∀ q n, P q → P (q.drain n).2)
    {q : SegmentQueue} (h : q.Reachable) : P q := by
  obtain ⟨hint, actions, rfl⟩ := h
  -- by induction on the run, from any queue that satisfies it
  suffices hrun : ∀ q : SegmentQueue, P q → P (q.runAll actions).2 from hrun _ (hnew hint)
  intro q hq
  induction actions generalizing q with
  | nil => exact hq
  | cons a rest ih =>
    cases a with
    | append chunk => exact ih _ (happend q chunk hq)
    | ask query =>
      apply ih
      cases query with
      | fill dst => exact hdrain q dst.length hq
      | isEmpty => exact hq

theorem Reachable.inBounds {q : SegmentQueue} (h : q.Reachable) : q.InBounds :=
  h.induction inBounds_ofCapacity (fun _ chunk hq => hq.append chunk) fun _ n hq => hq.drain n

end SegmentQueue

open SegmentQueue (Query Answer Action)

/-! ## The flat byte string -/

namespace Flat

/-- Ask a byte string. As many bytes as both have go from its front to the front of the
    destination, of which the rest is as it was. -/
def ask (bytes : Bytes) : Query → Answer × Bytes
  | .fill dst =>
    let n := min dst.length bytes.length
    (.filled n (bytes.take n ++ dst.drop n), bytes.drop n)
  | .isEmpty => (.emptiness bytes.isEmpty, bytes)

/-- Carry out actions one after the other. -/
def runAll (bytes : Bytes) : List Action → List Answer × Bytes
  | [] => ([], bytes)
  | .append chunk :: rest => runAll (bytes ++ chunk) rest
  | .ask query :: rest =>
    let (answer, bytes) := ask bytes query
    let (answers, bytes) := runAll bytes rest
    (answer :: answers, bytes)

theorem runAll_ask (bytes : Bytes) (query : Query) (rest : List Action) :
    runAll bytes (.ask query :: rest)
      = ((ask bytes query).1 :: (runAll (ask bytes query).2 rest).1,
          (runAll (ask bytes query).2 rest).2) := rfl

/-- The bytes that a run leaves are those written behind the first ones, less as many from
    the front as were copied out. -/
theorem runAll_snd (bytes : Bytes) (actions : List Action) :
    (runAll bytes actions).2
      = (bytes ++ SegmentQueue.written actions).drop
          (SegmentQueue.copied (runAll bytes actions).1) := by
  induction actions generalizing bytes with
  | nil => exact (List.append_nil bytes).symm
  | cons a rest ih =>
    cases a with
    | append chunk =>
      have hwritten : bytes ++ SegmentQueue.written (.append chunk :: rest)
          = bytes ++ chunk ++ SegmentQueue.written rest := (List.append_assoc _ _ _).symm
      rw [hwritten]
      exact ih (bytes ++ chunk)
    | ask query =>
      have hwritten : SegmentQueue.written (.ask query :: rest) = SegmentQueue.written rest := rfl
      rw [hwritten, runAll_ask]
      cases query with
      | isEmpty => exact ih bytes
      | fill dst =>
        -- no more is copied out than is there, so that the later chunks stay whole
        have hle : min dst.length bytes.length ≤ bytes.length := Nat.min_le_right _ _
        have hrest := ih (bytes.drop (min dst.length bytes.length))
        rw [← List.drop_append_of_le_length hle, List.drop_drop] at hrest
        exact hrest

end Flat

/-! ## The agreement -/

namespace SegmentQueue

/-- A query is answered as the unread bytes answer it, and leaves them as it leaves these. -/
theorem ask_eq_flat (q : SegmentQueue) (query : Query) :
    (q.ask query).1 = (Flat.ask q.unread query).1
      ∧ (q.ask query).2.unread = (Flat.ask q.unread query).2 := by
  cases query with
  | fill dst =>
    have htake : q.unread.take dst.length = q.unread.take (min dst.length q.unread.length) :=
      List.take_eq_take_min
    have hdrop : q.unread.drop dst.length = q.unread.drop (min dst.length q.unread.length) :=
      List.drop_eq_drop_min
    have hkept : dst.drop q.unread.length = dst.drop (min dst.length q.unread.length) := by
      rw [Nat.min_comm]
      exact List.drop_eq_drop_min
    show Answer.filled (q.drainInto dst).1 (q.drainInto dst).2.1 = _
      ∧ (q.drainInto dst).2.2.unread = _
    rw [drainInto_eq, unread_drain, htake, hdrop, hkept]
    exact ⟨rfl, rfl⟩
  | isEmpty =>
    refine ⟨?_, rfl⟩
    show Answer.emptiness q.isEmpty = Answer.emptiness q.unread.isEmpty
    rw [Answer.emptiness.injEq, Bool.eq_iff_iff, isEmpty_iff, List.isEmpty_iff]

/-- Over every run a queue gives the answers that its unread bytes give, and keeps them for
    its unread bytes: by induction on the actions. -/
theorem runAll_eq_flat (q : SegmentQueue) (actions : List Action) :
    (q.runAll actions).1 = (Flat.runAll q.unread actions).1
      ∧ (q.runAll actions).2.unread = (Flat.runAll q.unread actions).2 := by
  induction actions generalizing q with
  | nil => exact ⟨rfl, rfl⟩
  | cons a rest ih =>
    cases a with
    | append chunk =>
      have hrest := ih (q.append chunk)
      rw [unread_append] at hrest
      exact hrest
    | ask query =>
      obtain ⟨hanswer, hunread⟩ := q.ask_eq_flat query
      obtain ⟨hanswers, hleft⟩ := ih (q.ask query).2
      rw [hunread] at hanswers hleft
      rw [runAll_ask, Flat.runAll_ask, hanswer, hanswers]
      exact ⟨rfl, hleft⟩

/-! ## Runs without their chunks -/

/-- The queries of a run, each with the bytes that were written since the one before it;
    `pending` are those written before the first action. -/
def spelling (pending : Bytes) : List Action → List (Bytes × Query)
  | [] => []
  | .append chunk :: rest => spelling (pending ++ chunk) rest
  | .ask query :: rest => (pending, query) :: spelling [] rest

end SegmentQueue

namespace Flat

/-- Answer queries, each after bytes were written. -/
def rounds (bytes : Bytes) : List (Bytes × Query) → List Answer
  | [] => []
  | (chunk, query) :: rest =>
    (ask (bytes ++ chunk) query).1 :: rounds (ask (bytes ++ chunk) query).2 rest

/-- A byte string cannot tell in how many chunks it was written: by induction on the
    actions, with the bytes that were written since the last query set apart. -/
theorem runAll_eq_rounds (bytes pending : Bytes) (actions : List Action) :
    (runAll (bytes ++ pending) actions).1
      = rounds bytes (SegmentQueue.spelling pending actions) := by
  induction actions generalizing bytes pending with
  | nil => rfl
  | cons a rest ih =>
    cases a with
    | append chunk =>
      have hrest := ih bytes (pending ++ chunk)
      rw [← List.append_assoc] at hrest
      exact hrest
    | ask query =>
      have hrest := ih (ask (bytes ++ pending) query).2 []
      rw [List.append_nil] at hrest
      exact congrArg ((ask (bytes ++ pending) query).1 :: ·) hrest

end Flat

namespace SegmentQueue

/-- What later queries are answered depends on the bytes written before and the number of
    those copied out, and on the bytes written between the queries. -/
theorem runAll_eq_rounds (hint : Nat) (before after : List Action) :
    (((ofCapacity hint).runAll before).2.runAll after).1
      = Flat.rounds ((written before).drop (copied ((ofCapacity hint).runAll before).1))
          (spelling [] after) := by
  obtain ⟨hanswers, hunread⟩ := (ofCapacity hint).runAll_eq_flat before
  have hleft := Flat.runAll_snd [] before
  rw [unread_ofCapacity] at hanswers hunread
  rw [← hanswers, List.nil_append, ← hunread] at hleft
  have hrounds := Flat.runAll_eq_rounds ((ofCapacity hint).runAll before).2.unread [] after
  rw [List.append_nil, ← (runAll_eq_flat _ after).1, hleft] at hrounds
  exact hrounds

/-- A queue refines a flat byte string. Over every run of a new queue, of whatever initial
    capacity, each fill and each question whether it is empty is answered as by the byte
    string, which the unread bytes remain; and the copy loop, each of its slices within
    its bounds, comes to what a fill is answered.

    Hence chunks cannot be told apart from other chunks that spell the same bytes: two
    queues into which the same bytes were written, however cut, and out of which as many
    were copied, answer all later queries alike, as long as the bytes written between
    these are the same, however cut. -/
theorem refines_flat_string :
    (∀ (hint : Nat) (actions : List Action),
        let run := (ofCapacity hint).runAll actions
        run.1 = (Flat.runAll [] actions).1
          ∧ run.2.unread = (Flat.runAll [] actions).2
          ∧ ∀ dst, Copy.finish? (2 * run.2.segmentCount) (run.2.copyInto dst)
              = some { segments := (run.2.drainInto dst).2.2.segments
                       dst := (run.2.drainInto dst).2.1
                       copied := (run.2.drainInto dst).1 })
      ∧ ∀ (hint₁ hint₂ : Nat) (before₁ before₂ after₁ after₂ : List Action),
          written before₁ = written before₂ →
          copied ((ofCapacity hint₁).runAll before₁).1
            = copied ((ofCapacity hint₂).runAll before₂).1 →
          spelling [] after₁ = spelling [] after₂ →
          (((ofCapacity hint₁).runAll before₁).2.runAll after₁).1
            = (((ofCapacity hint₂).runAll before₂).2.runAll after₂).1 := by
  refine ⟨fun hint actions => ?_, ?_⟩
  · intro run
    obtain ⟨hanswers, hunread⟩ := (ofCapacity hint).runAll_eq_flat actions
    have hreach : run.2.Reachable := ⟨hint, actions, rfl⟩
    exact ⟨hanswers, hunread, hreach.inBounds.finish?_copyInto⟩
  · intro hint₁ hint₂ before₁ before₂ after₁ after₂ hwritten hcopied hspelling
    rw [runAll_eq_rounds, runAll_eq_rounds, hwritten, hcopied, hspelling]

/-- Three bytes in two chunks with an empty one between them, of which two are copied at
    once, or in two other chunks, of which one byte is copied twice. Two more bytes follow
    in one chunk, or in two. Then the destination gets the three bytes left, and its last
    one stays, on both sides. -/
theorem refines_flat_string_recut :
    let before₁ : List Action := [.append [1, 2], .append [], .append [3], .ask (.fill [0, 0])]
    let before₂ : List Action :=
      [.append [1], .append [2, 3], .ask (.fill [0]), .ask .isEmpty, .ask (.fill [9])]
    let after₁ : List Action := [.append [4, 5], .ask (.fill [6, 7, 8, 9]), .ask .isEmpty]
    let after₂ : List Action :=
      [.append [4], .append [5], .append [], .ask (.fill [6, 7, 8, 9]), .ask .isEmpty]
    written before₁ = written before₂
      ∧ copied ((ofCapacity 0).runAll before₁).1 = copied ((ofCapacity 8).runAll before₂).1
      ∧ spelling [] after₁ = spelling [] after₂
      ∧ (((ofCapacity 0).runAll before₁).2.runAll after₁).1
          = [.filled 3 [3, 4, 5, 9], .emptiness true]
      ∧ (((ofCapacity 8).runAll before₂).2.runAll after₂).1
          = [.filled 3 [3, 4, 5, 9], .emptiness true] := by
  intro before₁ before₂ after₁ after₂
  have hwritten : written before₁ = written before₂ := by decide
  have hcopied : copied ((ofCapacity 0).runAll before₁).1
      = copied ((ofCapacity 8).runAll before₂).1 := by decide +kernel
  have hspelling : spelling [] after₁ = spelling [] after₂ := by decide
  have hfirst : (((ofCapacity 0).runAll before₁).2.runAll after₁).1
      = [.filled 3 [3, 4, 5, 9], .emptiness true] := by decide +kernel
  have hsame := refines_flat_string.2 0 8 before₁ before₂ after₁ after₂ hwritten hcopied hspelling
  exact ⟨hwritten, hcopied, hspelling, hfirst, hsame.symm.trans hfirst⟩

end SegmentQueue

end StreamBuffer
