/-
  StreamBuffer.Proofs.Session.Serving

  What a write does for the reads in line.

  A write wakes the read that has waited longest, and no other. Bytes can be unread beside
  blocked reads, left over by a read that was woken before with a small destination. So the
  woken read finds those bytes and the chunk behind them. If there are any it ends with as many
  as it has room for; if there are none, which takes an empty chunk, it goes to the end of the
  line (`Buffer.serves_write`).

  Chunks with bytes in them, written one after the other, thus end the plain reads in the order
  of the line, each chunk one of them (`Buffer.ended_writes`).
-/
import StreamBuffer.Proofs.Buffer.Blocking
import StreamBuffer.Proofs.Buffer.Rewaking
import StreamBuffer.Proofs.Session.Alarms
import StreamBuffer.Proofs.Session.Boundary

namespace StreamBuffer

/-! ## A plain read that is woken -/

/-- The look of a plain read is not inside a repeating call. -/
theorem Reader.Plain.repeats_eq_false {r : Reader} {n : Nat} (h : r.Plain n) :
    r.call.repeats = false := by
  rcases h with h | h <;> rw [h] <;> rfl

/-- Where bytes are unread, a plain read ends with the first of them, leaves the others, and
    records how many it took. -/
theorem Reader.Plain.proceed_of_unread_ne_nil {r : Reader} {n : Nat} (h : r.Plain n)
    (hn : 0 < n) {s : BufferState} (hne : s.queue.unread ≠ []) :
    (r.proceed s false).standing = .inl (.bytes (s.queue.unread.take n))
      ∧ (r.proceed s false).state.queue.unread = s.queue.unread.drop n
      ∧ (r.proceed s false).events = [.read (s.queue.unread.take n).length false] := by
  have hlook : r.look s false = s.attempt n := by
    rw [← h.want_eq]
    rfl
  have htaken : (r.look s false).1 = .taken (s.queue.unread.take n) := by
    rw [hlook, BufferState.attempt_eq, BufferState.verdict_eq_taken_iff]
    refine ⟨Or.inr ?_, rfl⟩
    rw [Ne, List.take_eq_nil_iff, not_or]
    exact ⟨by omega, hne⟩
  have hended := h.settle_taken (s.queue.unread.take n)
  rw [← htaken] at hended
  rw [proceed_of_ended hended]
  refine ⟨rfl, ?_, ?_⟩
  · show (r.look s false).2.queue.unread = _
    rw [hlook]
    exact BufferState.unread_attempt s n
  · show r.eventsOf (r.look s false).1 = _
    rw [htaken, eventsOf, h.repeats_eq_false]

namespace Buffer

/-! ## One write -/

/-- What comes of writing `chunk` at `b`, where the plain read `r` of up to `n` bytes waits in
    front of `rest`. If any byte is unread then, old or new, `r` ends with the first of them;
    if none is, it waits behind the others. The write and that one look are recorded, and
    nothing else changes. -/
structure ServesFront (b : Buffer) (r : Reader) (rest : List Reader) (n : Nat) (chunk : Bytes)
    (out : Buffer × Effects) : Prop where
  of_bytes : b.state.queue.unread ++ chunk ≠ [] →
    out.1.waiting = rest ∧ ∃ got, out.2.ended = [(r.id, .bytes got)]
      ∧ got.length = min n (b.state.queue.unread.length + chunk.length)
      ∧ got ++ out.1.state.queue.unread = b.state.queue.unread ++ chunk
      ∧ out.2.events = [.wrote chunk.length, .read got.length false]
  of_none : b.state.queue.unread ++ chunk = [] →
    out.1.waiting = rest ++ [r] ∧ out.2.ended = [] ∧ out.1.state.queue.unread = []
      ∧ out.2.events = [.wrote chunk.length, .blocking false]
  closed_eq : out.1.state.closed = b.state.closed
  deadlineReached_eq : out.1.state.deadlineReached = b.state.deadlineReached
  timer_eq : out.1.state.timer = b.state.timer
  generation_eq : out.1.state.generation = b.state.generation
  released_eq_nil : out.2.released = []

/-- At most one read ends, so that there is nothing to sort. -/
theorem ServesFront.mergeSort_ended {b : Buffer} {r : Reader} {rest : List Reader} {n : Nat}
    {chunk : Bytes} {out : Buffer × Effects} (h : b.ServesFront r rest n chunk out)
    (le : Nat × Outcome → Nat × Outcome → Bool) : out.2.ended.mergeSort le = out.2.ended := by
  by_cases hstream : b.state.queue.unread ++ chunk = []
  · rw [(h.of_none hstream).2.1]
    exact List.mergeSort_nil
  · obtain ⟨-, got, hended, -⟩ := h.of_bytes hstream
    rw [hended]
    exact List.mergeSort_singleton (r.id, Outcome.bytes got)

/-- Neither event is of a look inside a repeating call, so that a report shows both. -/
theorem ServesFront.filter_events {b : Buffer} {r : Reader} {rest : List Reader} {n : Nat}
    {chunk : Bytes} {out : Buffer × Effects} (h : b.ServesFront r rest n chunk out) :
    out.2.events.filter Event.isShown = out.2.events := by
  by_cases hstream : b.state.queue.unread ++ chunk = []
  · obtain ⟨-, -, -, hevents⟩ := h.of_none hstream
    rw [hevents]
    rfl
  · obtain ⟨-, got, -, -, -, hevents⟩ := h.of_bytes hstream
    rw [hevents]
    rfl

/-- A write changes the queue and lets the read in front of the line go on. -/
theorem write_of_waiting {b : Buffer} {r : Reader} {rest : List Reader}
    (h : b.waiting = r :: rest) (chunk : Bytes) :
    let s : BufferState := { b.state with queue := b.state.queue.append chunk }
    let front : Buffer := { b with state := s, waiting := rest }
    b.write chunk
      = ((front.accept r.id (r.proceed s false)).1,
        ({ events := [.wrote chunk.length] } : Effects)
          ++ (front.accept r.id (r.proceed s false)).2) := by
  intro s front
  have hwake : ({ b with state := s } : Buffer).wakeOne
      = front.accept r.id (r.proceed s false) := by
    rw [wakeOne, h]
    rfl
  rw [write, hwake]

/-- A write serves the plain read in front of the line. Whoever waits found neither flag set,
    so that only the bytes decide whether the read ends. -/
theorem serves_write {b : Buffer} (hopen : b.WaitsOpen) {r : Reader} {rest : List Reader}
    {n : Nat} (hwaiting : b.waiting = r :: rest) (hplain : r.Plain n) (chunk : Bytes) :
    b.ServesFront r rest n chunk (b.write chunk) := by
  obtain ⟨hclosed, hreached, hwant⟩ := hopen r (by rw [hwaiting]; exact List.mem_cons_self)
  obtain ⟨hclosed', hreached', htimer, hgeneration⟩ := fields_act b (.write chunk)
  let s : BufferState := { b.state with queue := b.state.queue.append chunk }
  let front : Buffer := { b with state := s, waiting := rest }
  have hunread : s.queue.unread = b.state.queue.unread ++ chunk :=
    SegmentQueue.unread_append b.state.queue chunk
  have hwrite := write_of_waiting hwaiting chunk
  refine ⟨fun hne => ?_, fun hnil => ?_, hclosed', hreached', htimer, hgeneration,
    released_write b chunk⟩
  · -- the read takes what it has room for, wherever the bytes came from
    rw [← hunread] at hne
    rw [hplain.want_eq] at hwant
    obtain ⟨hstanding, hleft, hevents⟩ := hplain.proceed_of_unread_ne_nil hwant hne
    rw [hwrite, accept_of_ended front r.id hstanding]
    refine ⟨rfl, s.queue.unread.take n, rfl, ?_, ?_, ?_⟩
    · rw [hunread, List.length_take, List.length_append]
    · show s.queue.unread.take n ++ (r.proceed s false).state.queue.unread = _
      rw [hleft, List.take_append_drop, hunread]
    · show [.wrote chunk.length] ++ (r.proceed s false).events = _
      rw [hevents, List.singleton_append]
  · -- it finds what it found before, and stands behind the others
    have hstuck : r.Stuck s := ⟨hunread.trans hnil, hclosed, hreached, hwant⟩
    obtain ⟨hstanding, hstate, hevents⟩ := Reader.proceed_of_stuck hstuck false
    rw [hwrite, accept_of_waits front r.id hstanding]
    refine ⟨rfl, rfl, ?_, ?_⟩
    · show (r.proceed s false).state.queue.unread = []
      rw [hstate]
      rfl
    · show [.wrote chunk.length] ++ (r.proceed s false).events = _
      rw [hevents, hplain.repeats_eq_false, List.singleton_append]

/-! ## Writes in a row -/

/-- A chunk with a byte in it ends the read that has waited longest, if any waits. -/
theorem ended_write {b : Buffer} (hopen : b.WaitsOpen)
    (hplain : ∀ r ∈ b.waiting, ∃ n, r.Plain n) {chunk : Bytes} (hne : chunk ≠ []) :
    (b.write chunk).2.ended.map Prod.fst = b.waitingIds.take 1
      ∧ (b.write chunk).1.waiting = b.waiting.tail := by
  rw [waitingIds]
  cases hw : b.waiting with
  | nil =>
    -- the chunk stays in the queue
    have hwake : ({ b with state := { b.state with queue := b.state.queue.append chunk } } :
        Buffer).wakeOne = (_, {}) := wakeOne_of_waiting_nil hw
    rw [write, hwake]
    exact ⟨rfl, hw⟩
  | cons r rest =>
    obtain ⟨n, hr⟩ := hplain r (by rw [hw]; exact List.mem_cons_self)
    obtain ⟨hwaiting, got, hended, -⟩ :=
      (serves_write hopen hw hr chunk).of_bytes (List.append_ne_nil_of_right_ne_nil _ hne)
    rw [hended]
    exact ⟨rfl, hwaiting⟩

/-- Chunks with bytes in them end as many of the plain reads that wait, in the order of the
    line, and the others wait on. -/
theorem ended_writes {b : Buffer} (h : b.Reachable) (hplain : ∀ r ∈ b.waiting, ∃ n, r.Plain n)
    {chunks : List Bytes} (hne : ∀ chunk ∈ chunks, chunk ≠ []) :
    (b.runAll (chunks.map .write)).2.ended.map Prod.fst = b.waitingIds.take chunks.length
      ∧ (b.runAll (chunks.map .write)).1.waiting = b.waiting.drop chunks.length := by
  induction chunks generalizing b with
  | nil => exact ⟨rfl, rfl⟩
  | cons chunk rest ih =>
    obtain ⟨hchunk, hrest⟩ := List.forall_mem_cons.mp hne
    obtain ⟨hfirst, htail⟩ := ended_write h.waitsOpen hplain hchunk
    -- the buffer behind the first write is reachable too, with the line without its front
    obtain ⟨hended, hwaiting⟩ := ih (h.act (.write chunk))
      (fun r hr => hplain r (List.mem_of_mem_tail (htail ▸ hr))) hrest
    have hids : (b.write chunk).1.waitingIds = b.waitingIds.drop 1 := by
      rw [waitingIds, waitingIds, htail, List.map_tail, List.drop_one]
    rw [List.map_cons, runAll_cons, Effects.ended_append, List.map_append, List.length_cons,
      Nat.add_comm]
    refine ⟨?_, ?_⟩
    · show (b.write chunk).2.ended.map Prod.fst
          ++ ((b.write chunk).1.runAll (rest.map .write)).2.ended.map Prod.fst = _
      rw [List.take_add, hfirst, ← hids]
      exact congrArg _ hended
    · show ((b.write chunk).1.runAll (rest.map .write)).1.waiting = _
      rw [← List.drop_drop, List.drop_one, ← htail]
      exact hwaiting

end Buffer

namespace Session

/-! ## Writes of a session -/

/-- Where no timer is given up, an operation on a buffer changes that buffer alone, and is
    recorded. -/
theorem onBuffer_of_released_nil {s : Session} {i : Nat} {b : Buffer}
    (hb : s.buffers[i]? = some b) {f : Buffer → Buffer × Effects} (h : (f b).2.released = []) :
    s.onBuffer i f = (s.put i (f b), (f b).2) := by
  rw [onBuffer, hb]
  show (stopAlarms _ (f b).2.released, _) = _
  rw [h]
  rfl

/-- The operation writes to the buffer of its handle and does nothing else, and the calls that it
    reports as woken are those that the write ended. What is recorded is shown, but for looks
    inside repeating calls. -/
theorem run_write {s : Session} {handle i : Nat} {b : Buffer}
    (hhandle : s.bufferOf? handle = some i) (hb : s.buffers[i]? = some b) (chunk : Bytes) :
    (Op.write handle chunk).run s
      = (s.put i (b.write chunk),
        .step .done none
          ((b.write chunk).2.ended.mergeSort fun x y => x.1 ≤ y.1)
          ((b.write chunk).1.waitingIds.mergeSort fun x y => x ≤ y)
          ((b.write chunk).2.events.filter Event.isShown)
          (some (b.write chunk).1.state.summary)) := by
  have hwrite : s.write i chunk = (s.put i (b.write chunk), (b.write chunk).2) :=
    onBuffer_of_released_nil hb (b.released_write chunk)
  have hself : (s.put i (b.write chunk)).buffers[i]? = some (b.write chunk).1 :=
    List.getElem?_set_self (List.getElem?_eq_some_iff.mp hb).1
  rw [Op.run, withHandle, hhandle]
  show ((s.write i chunk).1, report (s.write i chunk).1 i .done (s.write i chunk).2 none) = _
  rw [hwrite]
  simp only [report, waitingIds, summary?, Option.map_some, Option.getD_some, Option.bind_some,
    hself]

/-- A write serves exactly the read that has waited longest. In every reachable state in which
    a plain read waits in front of others, whatever is unread beside them and whatever chunk is
    written, that read ends with the first of all these bytes, or waits behind the others if
    there are none; no other read ends, and the flags, the timer and the generation stay. The
    write and that one look are what is recorded. At every boundary between the steps of a
    session, the step that writes does so to the buffer of its handle, changes nothing besides,
    and reports the one read that ended and both events. -/
theorem write_serves_longest_waiting :
    (∀ (b : Buffer) (r : Reader) (rest : List Reader) (n : Nat) (chunk : Bytes),
        b.Reachable → b.waiting = r :: rest → r.Plain n →
        b.ServesFront r rest n chunk (b.write chunk))
      ∧ ∀ (c : Config) (ops : List Op) (seen : List Report) (underway : List (Nat × Outcome))
          (s : Session) (handle i : Nat) (b : Buffer) (r : Reader) (rest : List Reader)
          (n : Nat) (chunk : Bytes),
          Boundary (({} : Session).create c).1 ops seen underway s →
          s.bufferOf? handle = some i → s.buffers[i]? = some b →
          b.waiting = r :: rest → r.Plain n →
          ∃ out : Buffer × Effects, b.ServesFront r rest n chunk out
            ∧ (Op.write handle chunk).run s
                = ({ s with
                      buffers := s.buffers.set i out.1
                      records := s.records.modify i (· ++ out.2.events) },
                  .step .done none out.2.ended (out.1.waitingIds.mergeSort fun x y => x ≤ y)
                    out.2.events (some out.1.state.summary)) := by
  refine ⟨?_, ?_⟩
  · intro b r rest n chunk h hwaiting hplain
    exact Buffer.serves_write h.waitsOpen hwaiting hplain chunk
  · intro c ops seen underway s handle i b r rest n chunk hs hhandle hb hwaiting hplain
    have hreach : b.Reachable := reachable_of_boundary hs b (List.mem_of_getElem? hb)
    have hserves := Buffer.serves_write hreach.waitsOpen hwaiting hplain chunk
    refine ⟨b.write chunk, hserves, ?_⟩
    rw [run_write hhandle hb, hserves.mergeSort_ended, hserves.filter_events]
    rfl

/-- The read in front of the line. -/
theorem exists_front {b : Buffer} {n : Nat}
    (h : b.waiting.head?.any (fun r => r.Plain n) = true) :
    ∃ r rest, b.waiting = r :: rest ∧ r.Plain n := by
  obtain ⟨r, hr, hplain⟩ := (Option.any_eq_true _ _).mp h
  obtain ⟨rest, hwaiting⟩ := List.head?_eq_some_iff.mp hr
  exact ⟨r, rest, hwaiting, of_decide_eq_true hplain⟩

/-- Two reads wait beside the byte that the read in front of them left over: an empty chunk ends
    the first of them with it, and the other waits on. Where no byte is unread, an empty chunk
    sends the read in front to the end of the line. -/
theorem write_serves_longest_waiting_left_over :
    (∃ b r rest, b = ((Buffer.ofConfig {}).runAll
          [.read 0 (.read 2), .read 1 (.stream 4), .read 2 (.read 1), .write [1, 2, 3]]).1
        ∧ b.waiting = r :: rest ∧ b.state.queue.unread = [3] ∧ r.Plain 4
        ∧ b.ServesFront r rest 4 [] (b.write [])
        ∧ (b.write []).2.ended = [(1, .bytes [3])] ∧ (b.write []).1.waitingIds = [2])
      ∧ ∃ s b r rest out, s = (Op.runAll [.read 0 (.read 2), .read 0 (.read 3)]
            (({} : Session).create {}).1).1
        ∧ s.buffers = [b] ∧ b.waitingIds = [0, 1] ∧ b.waiting = r :: rest ∧ r.Plain 2
        ∧ b.ServesFront r rest 2 [] out ∧ ((Op.write 0 []).run s).1.buffers = [out.1]
        ∧ out.1.waitingIds = [1, 0] := by
  refine ⟨?_, ?_⟩
  · let b := ((Buffer.ofConfig {}).runAll
      [.read 0 (.read 2), .read 1 (.stream 4), .read 2 (.read 1), .write [1, 2, 3]]).1
    obtain ⟨r, rest, hwaiting, hplain⟩ : ∃ r rest, b.waiting = r :: rest ∧ r.Plain 4 :=
      exists_front (by decide +kernel)
    have hserves := write_serves_longest_waiting.1 b r rest 4 [] ⟨_, _, rfl⟩ hwaiting hplain
    exact ⟨b, r, rest, rfl, hwaiting, by decide +kernel, hplain, hserves, by decide +kernel,
      by decide +kernel⟩
  · let reads : List Op := [.read 0 (.read 2), .read 0 (.read 3)]
    let s := (Op.runAll reads (({} : Session).create {}).1).1
    obtain ⟨b, hb⟩ : ∃ b, s.buffers = [b] := List.length_eq_one_iff.mp (by decide +kernel)
    have hfront : s.buffers.all (fun b => b.waiting.head?.any fun r => r.Plain 2)
        ∧ s.buffers.map Buffer.waitingIds = [[0, 1]]
        ∧ s.buffers.map (·.state.queue.unread) = [[]] := by decide +kernel
    rw [hb, List.all_cons, List.all_nil, Bool.and_true] at hfront
    obtain ⟨hplain, hids, hunread⟩ := hfront
    have hids : b.waitingIds = [0, 1] := List.head_eq_of_cons_eq hids
    have hunread : b.state.queue.unread = [] := List.head_eq_of_cons_eq hunread
    obtain ⟨r, rest, hwaiting, hplain⟩ := exists_front hplain
    obtain ⟨out, hserves, hrun⟩ := write_serves_longest_waiting.2 {} reads _ _ s 0 0 b r rest 2 []
      (boundary_runAll _ reads) (by decide +kernel) (by rw [hb]; rfl) hwaiting hplain
    obtain ⟨hbehind, -, -⟩ := hserves.of_none (by rw [hunread]; rfl)
    refine ⟨s, b, r, rest, out, rfl, hb, hids, hwaiting, hplain, hserves, ?_, ?_⟩
    · rw [hrun, hb]
      rfl
    · rw [Buffer.waitingIds, hwaiting, List.map_cons, List.cons.injEq] at hids
      rw [Buffer.waitingIds, hbehind, List.map_append, hids.2, List.map_singleton, hids.1]
      rfl

end Session

end StreamBuffer
