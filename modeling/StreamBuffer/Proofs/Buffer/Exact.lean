/-
  StreamBuffer.Proofs.Buffer.Exact

  A call that fills a destination of `n` bytes, alone on its buffer.

  As long as fewer than `n` bytes have come and neither flag is set, it waits with them. The
  first action after which there are `n` ends it with just these, however many reads it took
  and however many bytes are left behind them (`stands_fill`); an action that sets a flag
  before that ends it without, and what has come is gone.
-/
import StreamBuffer.Proofs.Buffer.Alone

namespace StreamBuffer

namespace Buffer

/-! ## Calls that do not read -/

/-- To fill an empty destination takes no look at the buffer. -/
theorem act_fill_zero (b : Buffer) (id : Nat) :
    b.act (.read id (.fill 0)) = (b, { ended := [(id, .bytes [])] }) := rfl

/-- Nor does any other destination, once the deadline is reached. -/
theorem act_fill_of_reached {b : Buffer} (h : b.state.deadlineReached = true) (id : Nat) {n : Nat}
    (hn : 0 < n) :
    b.act (.read id (.fill n))
      = (b, { ended := [(id, .streamFailed (.read .deadlineExceeded))] }) := by
  let r : Reader := { id, call := .fill n }
  have hlook : r.look b.state true = (.failed .deadlineExceeded, b.state) := by
    show b.state.enter n = _
    rw [BufferState.enter, if_pos h]
  have hsettle : r.settle (r.look b.state true).1
      = .ended (.streamFailed (.read .deadlineExceeded)) := by
    rw [hlook]
    exact Reader.settle_failed_of_fill rfl .deadlineExceeded
  have hstart : r.start b.state = r.proceed b.state true := by
    cases n with
    | zero => exact absurd hn (Nat.lt_irrefl 0)
    | succ n => rfl
  show b.accept id (r.start b.state) = _
  rw [hstart, Reader.proceed_of_ended hsettle, hlook]
  rfl

/-! ## A call that reads -/

/-- A call that has only begun ends with the first `n` bytes, or has all there are. -/
theorem gather_fill (id n : Nat) (bytes : Bytes) :
    ({ id, call := .fill n } : Reader).gather bytes
      = if n ≤ bytes.length then (.inl (.bytes (bytes.take n)), bytes.drop n)
        else (.inr { id, call := .fill n, got := bytes }, []) := by
  rw [Reader.gather_of_fill rfl]
  show (if n ≤ 0 + bytes.length then _ else _) = _
  rw [Nat.zero_add]
  rfl

theorem conclude_fill (cause : ReadError) (id n : Nat) (bytes : Bytes) :
    ({ id, call := .fill n } : Reader).conclude cause bytes
      = if n ≤ bytes.length then (.bytes (bytes.take n), bytes.drop n)
        else (.streamFailed cause.fillError, []) := by
  rw [Reader.conclude_of_fill rfl]
  show (if n ≤ 0 + bytes.length then _ else _) = _
  rw [Nat.zero_add]
  rfl

/-- Bytes that were missing are missing for good where no more come. -/
theorem conclude_fill_of_less (cause : ReadError) (id : Nat) {n : Nat} {all : Bytes}
    (hless : all.length < n) :
    ({ id, call := .fill n, got := all } : Reader).conclude cause []
      = (.streamFailed cause.fillError, []) := by
  rw [Reader.conclude_of_fill rfl]
  exact if_neg (by simp only [List.length_nil]; omega)

section

variable {b : Buffer} (hline : b.waiting = []) (hreached : b.state.deadlineReached = false)
  (id : Nat) {n : Nat} (hn : 0 < n) {during : List Action} (hbegun : ∀ a ∈ during, a.begun = [])
  {k : Nat} (hbefore : ∀ j < k, (b.runCall id (.fill n) (during.take j)).1.state.Open
    ∧ (b.soFar (during.take j)).length < n)
include hline hreached hn hbegun hbefore

/-- Where the call stands at a boundary before which neither flag was set and bytes were
    missing. -/
theorem stands_fill :
    let run := b.runCall id (.fill n) (during.take k)
    let all := b.soFar (during.take k)
    (n ≤ all.length → Stands run id (.inl (.bytes (all.take n))) (all.drop n))
      ∧ (all.length < n →
          (run.1.state.Open → Stands run id (.inr { id, call := .fill n, got := all }) [])
            ∧ (run.1.state.closed = true → Stands run id (.inl (.streamFailed .unfilled)) [])
            ∧ (run.1.state.deadlineReached = true →
                Stands run id (.inl (.streamFailed (.read .deadlineExceeded))) [])) := by
  intro run all
  have hwant : 0 < ({ id, call := .fill n } : Reader).want := hn
  have hundecided : ∀ j < k, b.Undecided id (.fill n) (during.take j) := by
    intro j hj
    obtain ⟨hopen, hless⟩ := hbefore j hj
    exact ⟨hopen, _, by rw [gather_fill, if_neg (by omega)]⟩
  have hbegun' : ∀ a ∈ during.take k, a.begun = [] :=
    fun a ha => hbegun a (List.mem_of_mem_take ha)
  have hfronts := undecided_of_take hundecided
  have hflags := open_or_over_runCall hwant hline hbegun' hfronts hreached
  have hwaits := stands_runCall_of_open hwant hline hbegun' hfronts
  have hcloses := stands_runCall_of_closed hwant hline hbegun' hfronts
  have hreaches := stands_runCall_of_reached hwant hline hbegun' hfronts hreached
  -- all three are told by whether what has come is enough
  rw [gather_fill] at hwaits hreaches
  rw [conclude_fill] at hcloses
  refine ⟨fun henough => ?_, fun hless => ?_⟩
  · rw [if_pos henough] at hwaits hcloses hreaches
    rcases hflags with hopen | ⟨_ | _, hover⟩
    · exact hwaits hopen
    · exact hcloses hover
    · -- a call that the deadline ended had not enough
      obtain ⟨r, hr, -⟩ := hreaches hover
      cases hr
  · rw [if_neg (Nat.not_le.mpr hless)] at hwaits hcloses hreaches
    refine ⟨hwaits, fun hclosed => ?_, fun hset => ?_⟩
    · exact hcloses (BufferState.over_of_closed hflags hclosed)
    · obtain ⟨r, hr, hstands⟩ := hreaches (BufferState.over_of_reached hflags hset)
      obtain rfl : { id, call := .fill n, got := all } = r := Sum.inr.inj hr
      rw [conclude_fill_of_less _ id hless] at hstands
      exact hstands

/-- The call ends no second time. -/
theorem not_mem_endedIds_fill
    (hended : n ≤ (b.soFar (during.take k)).length
      ∨ ¬(b.runCall id (.fill n) (during.take k)).1.state.Open) {later : List Action}
    (hlater : ∀ a ∈ later, id ∉ a.begun) :
    id ∉ endedIds ((b.runCall id (.fill n) (during.take k)).1.runAll later).2.ended := by
  obtain ⟨hfills, hmissing⟩ := stands_fill hline hreached id hn hbegun hbefore
  have hgone : (b.runCall id (.fill n) (during.take k)).1.waiting = [] := by
    by_cases henough : n ≤ (b.soFar (during.take k)).length
    · exact (hfills henough).waiting_eq
    · obtain ⟨-, hcloses, hreaches⟩ := hmissing (Nat.not_le.mp henough)
      have hflag := hended.resolve_left henough
      rcases (BufferState.open_or_flag _).resolve_left hflag with h | h
      · exact (hcloses h).waiting_eq
      · exact (hreaches h).waiting_eq
  refine not_mem_endedIds_runAll ?_ hlater
  rw [waitingIds, hgone]
  exact List.not_mem_nil

end

/-- A call that fills a destination of `n` bytes, alone on its buffer from its start to its
    end, delivers exactly the next `n` bytes or fails as it should. An empty destination is
    filled without a read, in every state. If the deadline is reached at the start the call
    fails, and the buffer stays as it is. Otherwise it ends at the first boundary at which `n`
    bytes were unread at its start or written since, with the first `n` of them, and leaves the
    others unread; as long as there are fewer and neither flag is set it waits; and a flag that
    is set before that ends it with its failure, and all that had come is consumed. No later
    action ends it again. -/
theorem fill_delivers_exactly (b : Buffer) (id n : Nat) :
    (n = 0 → b.act (.read id (.fill n)) = (b, { ended := [(id, .bytes [])] }))
      ∧ (0 < n → b.state.deadlineReached = true →
          b.act (.read id (.fill n))
            = (b, { ended := [(id, .streamFailed (.read .deadlineExceeded))] }))
      ∧ (0 < n → b.state.deadlineReached = false → b.waiting = [] →
          ∀ during : List Action, (∀ a ∈ during, a.begun = []) →
          let run (k : Nat) := b.runAll (.read id (.fill n) :: during.take k)
          let all (k : Nat) := b.state.queue.unread ++ written (during.take k)
          ∀ k, (∀ j < k, (run j).1.state.Open ∧ (all j).length < n) →
            (run k).2.copied ++ (run k).1.state.queue.unread = all k
              ∧ (n ≤ (all k).length →
                  (run k).1.waiting = [] ∧ (run k).2.ended = [(id, .bytes ((all k).take n))]
                    ∧ (run k).1.state.queue.unread = (all k).drop n)
              ∧ ((all k).length < n → (run k).1.state.queue.unread = []
                  ∧ ((run k).1.state.Open →
                      (run k).1.waiting = [{ id, call := .fill n, got := all k }]
                        ∧ (run k).2.ended = [])
                  ∧ ((run k).1.state.closed = true →
                      (run k).1.waiting = []
                        ∧ (run k).2.ended = [(id, .streamFailed .unfilled)])
                  ∧ ((run k).1.state.deadlineReached = true →
                      (run k).1.waiting = []
                        ∧ (run k).2.ended = [(id, .streamFailed (.read .deadlineExceeded))]))
              ∧ (n ≤ (all k).length ∨ ¬(run k).1.state.Open → ∀ later,
                  (∀ a ∈ later, id ∉ a.begun) →
                  id ∉ endedIds ((run k).1.runAll later).2.ended))
      ∧ (StreamError.read .deadlineExceeded).kind = .timedOut
      ∧ StreamError.unfilled.kind = .unexpectedEnd := by
  refine ⟨?_, fun hn hreached => act_fill_of_reached hreached id hn, ?_, rfl, rfl⟩
  · rintro rfl
    exact act_fill_zero b id
  · intro hn hreached hline during hbegun run all k hbefore
    obtain ⟨hfills, hmissing⟩ := stands_fill hline hreached id hn hbegun hbefore
    refine ⟨copied_append_unread_runAll b (.read id (.fill n) :: during.take k), ?_, ?_, ?_⟩
    · exact fun h => ⟨(hfills h).waiting_eq, (hfills h).ended_eq, (hfills h).unread_eq⟩
    · intro hless
      obtain ⟨hwaits, hcloses, hreaches⟩ := hmissing hless
      refine ⟨?_, fun h => ⟨(hwaits h).waiting_eq, (hwaits h).ended_eq⟩,
        fun h => ⟨(hcloses h).waiting_eq, (hcloses h).ended_eq⟩,
        fun h => ⟨(hreaches h).waiting_eq, (hreaches h).ended_eq⟩⟩
      rcases BufferState.open_or_flag (run k).1.state with h | h | h
      · exact (hwaits h).unread_eq
      · exact (hcloses h).unread_eq
      · exact (hreaches h).unread_eq
    · exact fun h later => not_mem_endedIds_fill hline hreached id hn hbegun hbefore h

/-- Two bytes are unread at the start and one more comes, then five. The call takes two of
    these; in a run that is closed before they come it fails, and what had come is gone. -/
theorem fill_delivers_exactly_in_pieces :
    let b := ((ofConfig {}).runAll [.write [1], .write [2]]).1
    let filled : List Action := [.write [3], .startDeadline 0 none, .write [4, 5, 6, 7, 8], .close]
    let closed : List Action := [.write [3], .close]
    let run := b.runAll (.read 7 (.fill 5) :: filled.take 3)
    let failed := b.runAll (.read 7 (.fill 5) :: closed.take 2)
    b.waiting = [] ∧ b.state.deadlineReached = false
      ∧ run.2.ended = [(7, .bytes [1, 2, 3, 4, 5])]
      ∧ run.1.state.queue.unread = [6, 7, 8]
      ∧ failed.2.ended = [(7, .streamFailed .unfilled)] ∧ failed.1.state.queue.unread = [] := by
  intro b filled closed run failed
  have hline : b.waiting = [] := by decide +kernel
  have hunset : b.state.deadlineReached = false := by decide +kernel
  obtain ⟨-, -, hreads, -⟩ := fill_delivers_exactly b 7 5
  obtain ⟨-, hfills, -⟩ :=
    hreads (by decide) hunset hline filled (by decide) 3 (by decide +kernel)
  obtain ⟨-, -, hfails, -⟩ :=
    hreads (by decide) hunset hline closed (by decide) 2 (by decide +kernel)
  obtain ⟨-, hended, hleft⟩ := hfills (by decide +kernel)
  obtain ⟨hgone, -, hcloses, -⟩ := hfails (by decide +kernel)
  refine ⟨hline, hunset, hended, hleft, (hcloses (by decide +kernel)).2, hgone⟩

end Buffer

end StreamBuffer
