/-
  StreamBuffer.Proofs.Buffer.WholeStream

  A call that collects everything up to the end, alone on its buffer.

  While neither flag is set it has all bytes that have come and waits at an empty queue; the
  first action that sets a flag ends it with them (`stands_toEnd`). Neither the sizes of its
  pieces nor the chunks the bytes came in are left in that. What it collects as text is the
  same run, with the bytes read as a text at its end.
-/
import StreamBuffer.Proofs.Buffer.Alone
import StreamBuffer.Proofs.Buffer.Text

namespace StreamBuffer

namespace Buffer

section

variable {b : Buffer} (hline : b.waiting = []) (hreached : b.state.deadlineReached = false)
  (id : Nat) (pieces : PieceSizes) {during : List Action} (hbegun : ∀ a ∈ during, a.begun = [])
  {k : Nat} (hopen : ∀ j < k, (b.runCall id (.toEnd pieces) (during.take j)).1.state.Open)
include hline hreached hbegun hopen

/-- Where the call stands at a boundary before which neither flag was set. -/
theorem stands_toEnd :
    let run := b.runCall id (.toEnd pieces) (during.take k)
    let all := b.soFar (during.take k)
    (run.1.state.Open → Stands run id (.inr { id, call := .toEnd pieces, got := all }) [])
      ∧ (run.1.state.closed = true → Stands run id (.inl (.collected all none)) [])
      ∧ (run.1.state.deadlineReached = true →
          Stands run id (.inl (.collected all (some (.read .deadlineExceeded)))) []) := by
  intro run all
  let r : Reader := { id, call := .toEnd pieces }
  have hcollects : r.Collects pieces := Or.inl rfl
  have hwant : 0 < r.want := hcollects.want_pos
  -- nothing decides the call but the flags
  have hundecided : ∀ j < k, b.Undecided id (.toEnd pieces) (during.take j) :=
    fun j hj => ⟨hopen j hj, _, congrArg Prod.fst (hcollects.gather_eq _)⟩
  have hbegun' : ∀ a ∈ during.take k, a.begun = [] :=
    fun a ha => hbegun a (List.mem_of_mem_take ha)
  have hbefore := undecided_of_take hundecided
  have hflags := open_or_over_runCall hwant hline hbegun' hbefore hreached
  refine ⟨fun hopen => ?_, fun hclosed => ?_, fun hset => ?_⟩
  · have hstands := stands_runCall_of_open hwant hline hbegun' hbefore hopen
    rw [hcollects.gather_eq] at hstands
    exact hstands
  · have hstands := stands_runCall_of_closed hwant hline hbegun' hbefore
      (BufferState.over_of_closed hflags hclosed)
    rw [hcollects.conclude_eq] at hstands
    exact hstands
  · -- it had all that has come when the deadline was reached
    obtain ⟨r', hr', hstands⟩ := stands_runCall_of_reached hwant hline hbegun' hbefore hreached
      (BufferState.over_of_reached hflags hset)
    obtain rfl := Reader.gather_collects_of_waits hr' hcollects
    rw [(hcollects.collect _).conclude_eq] at hstands
    simp only [List.take_nil, List.drop_nil, Reader.collect_nil] at hstands
    exact hstands

/-- Nothing is unread there, whichever flag is set. -/
theorem unread_toEnd :
    (b.runCall id (.toEnd pieces) (during.take k)).1.state.queue.unread = [] := by
  obtain ⟨hwaits, hcloses, hreaches⟩ := stands_toEnd hline hreached id pieces hbegun hopen
  rcases BufferState.open_or_flag (b.runCall id (.toEnd pieces) (during.take k)).1.state
    with h | h | h
  · exact (hwaits h).unread_eq
  · exact (hcloses h).unread_eq
  · exact (hreaches h).unread_eq

/-- The call ends no second time. -/
theorem not_mem_endedIds_toEnd
    (hflag : ¬(b.runCall id (.toEnd pieces) (during.take k)).1.state.Open) {later : List Action}
    (hlater : ∀ a ∈ later, id ∉ a.begun) :
    id ∉ endedIds ((b.runCall id (.toEnd pieces) (during.take k)).1.runAll later).2.ended := by
  obtain ⟨-, hcloses, hreaches⟩ := stands_toEnd hline hreached id pieces hbegun hopen
  have hgone : (b.runCall id (.toEnd pieces) (during.take k)).1.waiting = [] := by
    rcases (BufferState.open_or_flag _).resolve_left hflag with h | h
    · exact (hcloses h).waiting_eq
    · exact (hreaches h).waiting_eq
  refine not_mem_endedIds_runAll ?_ hlater
  rw [waitingIds, hgone]
  exact List.not_mem_nil

/-- With other sizes of its pieces it ends with the same: the flags are the same, and so are
    the bytes. -/
theorem ended_toEnd_eq (pieces' : PieceSizes) :
    (b.runCall id (.toEnd pieces') (during.take k)).2.ended
      = (b.runCall id (.toEnd pieces) (during.take k)).2.ended := by
  have hflags : ∀ actions, (b.runCall id (.toEnd pieces') actions).1.state.control
      = (b.runCall id (.toEnd pieces) actions).1.state.control := control_runCall b id _ _
  obtain ⟨hwaits, hcloses, hreaches⟩ := stands_toEnd hline hreached id pieces hbegun hopen
  obtain ⟨hwaits', hcloses', hreaches'⟩ := stands_toEnd hline hreached id pieces' hbegun
    fun j hj => (hopen j hj).of_control_eq (hflags _)
  obtain ⟨hclosed, hset, -, -⟩ := BufferState.fields_of_control_eq (hflags (during.take k))
  rcases BufferState.open_or_flag (b.runCall id (.toEnd pieces) (during.take k)).1.state
    with h | h | h
  · rw [(hwaits h).ended_eq, (hwaits' (h.of_control_eq (hflags _))).ended_eq]
    rfl
  · rw [(hcloses h).ended_eq, (hcloses' (hclosed.trans h)).ended_eq]
  · rw [(hreaches h).ended_eq, (hreaches' (hset.trans h)).ended_eq]

end

/-- What a call that collects text ends with, where one that collects bytes ends so. -/
theorem ended_toText {run : Buffer × Effects} {id : Nat} {all : Bytes}
    {error : Option StreamError} (h : run.2.ended = [(id, .collected all error)]) :
    (∀ t : String, t.toUTF8 = all.toByteArray →
        (Prod.map asText Effects.asText run).2.ended = [(id, .text all t error)])
      ∧ ((∀ t : String, t.toUTF8 ≠ all.toByteArray) →
        (Prod.map asText Effects.asText run).2.ended
          = [(id, .text all "" (some (error.getD .notText)))]) := by
  have hended : (Prod.map asText Effects.asText run).2.ended = [(id, .ofText all error)] := by
    show run.2.ended.map _ = _
    rw [h]
    rfl
  refine ⟨fun t ht => ?_, fun hnot => ?_⟩
  · rw [hended, Outcome.ofText_of_utf8 ht]
  · rw [hended, Outcome.ofText_of_not_utf8 hnot]

/-- A call that collects to the end, alone on its buffer from its start to its end and started
    before the deadline was reached, collects the whole stream. At every boundary up to the
    first at which a flag is set it has taken all that was unread at its start and all that was
    written since. It ends at that one and at no other: with these bytes if the buffer was
    closed, and with these bytes and the failure if the deadline was reached. With other sizes
    of its pieces it ends there with the same, and as a call that collects text its outcome is
    all that changes. -/
theorem toEnd_collects_whole_stream {b : Buffer} (hline : b.waiting = [])
    (hreached : b.state.deadlineReached = false) (id : Nat) (pieces : PieceSizes)
    {during : List Action} (hbegun : ∀ a ∈ during, a.begun = []) :
    let run (k : Nat) := b.runAll (.read id (.toEnd pieces) :: during.take k)
    let textRun (k : Nat) := b.runAll (.read id (.toText pieces) :: during.take k)
    let all (k : Nat) := b.state.queue.unread ++ written (during.take k)
    (∀ k, (∀ j < k, (run j).1.state.Open) →
        (run k).1.state.queue.unread = []
          ∧ ((run k).1.state.Open →
              (run k).1.waiting = [{ id, call := .toEnd pieces, got := all k }]
                ∧ (run k).2.ended = [])
          ∧ ((run k).1.state.closed = true →
              (run k).1.waiting = [] ∧ (run k).2.ended = [(id, .collected (all k) none)])
          ∧ ((run k).1.state.deadlineReached = true →
              (run k).1.waiting = []
                ∧ (run k).2.ended = [(id, .collected (all k) (some (.read .deadlineExceeded)))])
          ∧ (¬(run k).1.state.Open → ∀ later, (∀ a ∈ later, id ∉ a.begun) →
              id ∉ endedIds ((run k).1.runAll later).2.ended)
          ∧ ∀ pieces' : PieceSizes,
              (b.runAll (.read id (.toEnd pieces') :: during.take k)).2.ended = (run k).2.ended)
      ∧ (∀ k, textRun k = Prod.map asText Effects.asText (run k))
      ∧ (∀ k error, (run k).2.ended = [(id, .collected (all k) error)] →
          (∀ t : String, t.toUTF8 = (all k).toByteArray →
              (textRun k).2.ended = [(id, .text (all k) t error)])
            ∧ ((∀ t : String, t.toUTF8 ≠ (all k).toByteArray) →
              (textRun k).2.ended = [(id, .text (all k) "" (some (error.getD .notText)))]))
      ∧ (StreamError.read .deadlineExceeded).kind = .timedOut
      ∧ StreamError.notText.kind = .invalidData := by
  intro run textRun all
  have htext : ∀ k, textRun k = Prod.map asText Effects.asText (run k) := fun k =>
    runAll_toText hline id pieces fun a ha => hbegun a (List.mem_of_mem_take ha)
  refine ⟨fun k hopen => ?_, htext, fun k error hended => ?_, rfl, rfl⟩
  · obtain ⟨hwaits, hcloses, hreaches⟩ := stands_toEnd hline hreached id pieces hbegun hopen
    refine ⟨unread_toEnd hline hreached id pieces hbegun hopen, ?_, ?_, ?_, ?_, ?_⟩
    · exact fun h => ⟨(hwaits h).waiting_eq, (hwaits h).ended_eq⟩
    · exact fun h => ⟨(hcloses h).waiting_eq, (hcloses h).ended_eq⟩
    · exact fun h => ⟨(hreaches h).waiting_eq, (hreaches h).ended_eq⟩
    · exact fun h later => not_mem_endedIds_toEnd hline hreached id pieces hbegun hopen h
    · exact ended_toEnd_eq hline hreached id pieces hbegun hopen
  · rw [htext]
    exact ended_toText hended

/-- The first byte of two that make one character is unread at the start, and the second
    comes in a chunk of its own behind an empty one. To the close the two are a text; up to a
    deadline reached in between they are none. -/
theorem toEnd_collects_whole_stream_split_character :
    let b := (((ofConfig {}).runAll [.write [104], .write [195]]).1)
    let closed : List Action := [.write [], .startDeadline 0 none, .write [169], .close, .write [1]]
    let reached : List Action := [.startDeadline 5 (some (.tick 4)), .write [169]]
    b.waiting = [] ∧ b.state.deadlineReached = false
      ∧ (b.runAll (.read 7 (.toEnd .doubling) :: closed.take 4)).2.ended
          = [(7, .collected [104, 195, 169] none)]
      ∧ (b.runAll (.read 7 (.toText .doubling) :: closed.take 4)).2.ended
          = [(7, .text [104, 195, 169] "hé" none)]
      ∧ (b.runAll (.read 7 (.toText .doubling) :: reached.take 1)).2.ended
          = [(7, .text [104, 195] "" (some (.read .deadlineExceeded)))] := by
  intro b closed reached
  have hline : b.waiting = [] := by decide +kernel
  have hunset : b.state.deadlineReached = false := by decide +kernel
  have hclosed : ∀ a ∈ closed, a.begun = [] := by decide
  have hreached : ∀ a ∈ reached, a.begun = [] := by decide
  obtain ⟨hcollects, -, htext, -⟩ := toEnd_collects_whole_stream hline hunset 7 .doubling hclosed
  obtain ⟨hcollects', -, htext', -⟩ :=
    toEnd_collects_whole_stream hline hunset 7 .doubling hreached
  obtain ⟨-, -, hcloses, -⟩ := hcollects 4 (by decide +kernel)
  obtain ⟨-, -, -, hreaches, -⟩ := hcollects' 1 (by decide +kernel)
  have hended := (hcloses (by decide +kernel)).2
  have hended' := (hreaches (by decide +kernel)).2
  -- the character that the deadline cut has only its first byte
  have hnot : ∀ t : String, t.toUTF8 ≠ ([104, 195] : Bytes).toByteArray := by
    intro t ht
    have hvalid : ([104, 195] : Bytes).toByteArray.IsValidUTF8 := by
      rw [← ht]
      exact t.isValidUTF8
    exact absurd hvalid (by decide +kernel)
  refine ⟨hline, hunset, hended, ?_, ?_⟩
  · exact (htext 4 none hended).1 "hé" (by decide +kernel)
  · exact (htext' 1 _ hended').2 hnot

end Buffer

end StreamBuffer
