/-
  StreamBuffer.Proofs.Buffer.Outcome

  How a plain read ends, whatever moves others make while it waits, and whatever makes
  it look again.

  One look at the queue decides alone (`BufferState.Concludes`): bytes come before the
  end of the stream, which comes before the deadline; a look that finds none of them
  lets the call wait on (`BufferState.Waits`). Only at the entry a deadline reached by
  then comes before everything.

  `Course` says what a call came to by its looks: it has waited at all of them and
  stands in the line once, or it has waited at all but the last, which ended it, and
  is gone. Moves of others leave its course alone (`entries_move_of_ne`), a look of its
  own goes on with it (`looked_accept`), and a run keeps it by induction on the moves.
-/
import StreamBuffer.Proofs.Buffer.Move
import StreamBuffer.Proofs.Reader.Conclusion

namespace StreamBuffer

/-! ## One look of a plain read -/

namespace BufferState

/-- A look of a plain read with room for `n` bytes ends the read so. -/
inductive Concludes (s : BufferState) (n : Nat) : Outcome → Prop where
  | bytes (h : n = 0 ∨ s.queue.unread ≠ []) : Concludes s n (.bytes (s.queue.unread.take n))
  | endOfStream (hn : 0 < n) (hunread : s.queue.unread = []) (hclosed : s.closed = true) :
      Concludes s n (.readFailed .endOfStream)
  | deadlineExceeded (hn : 0 < n) (hunread : s.queue.unread = []) (hclosed : s.closed = false)
      (hreached : s.deadlineReached = true) : Concludes s n (.readFailed .deadlineExceeded)

/-- A look of a plain read with room for `n` bytes finds nothing, and no reason to end. -/
structure Waits (s : BufferState) (n : Nat) : Prop where
  want_pos : 0 < n
  unread_eq_nil : s.queue.unread = []
  closed_eq_false : s.closed = false
  deadlineReached_eq_false : s.deadlineReached = false

theorem concludes_or_waits (s : BufferState) (n : Nat) : (∃ o, s.Concludes n o) ∨ s.Waits n := by
  by_cases hserved : n = 0 ∨ s.queue.unread ≠ []
  · exact Or.inl ⟨_, .bytes hserved⟩
  obtain ⟨hn, hunread⟩ := not_or.mp hserved
  have hpos : 0 < n := Nat.pos_of_ne_zero hn
  have hnil : s.queue.unread = [] := Classical.not_not.mp hunread
  cases hclosed : s.closed with
  | true => exact Or.inl ⟨_, .endOfStream hpos hnil hclosed⟩
  | false =>
    cases hreached : s.deadlineReached with
    | true => exact Or.inl ⟨_, .deadlineExceeded hpos hnil hclosed hreached⟩
    | false => exact Or.inr ⟨hpos, hnil, hclosed, hreached⟩

/-- A read that fails found no byte. -/
theorem Concludes.unread_eq_nil {s : BufferState} {n : Nat} {error : ReadError}
    (h : s.Concludes n (.readFailed error)) : s.queue.unread = [] := by
  cases h with
  | endOfStream _ hunread _ => exact hunread
  | deadlineExceeded _ hunread _ _ => exact hunread

/-- A read of no bytes had room for none. -/
theorem Concludes.eq_zero {s : BufferState} {n : Nat} (h : s.Concludes n (.bytes [])) : n = 0 := by
  generalize ho : Outcome.bytes [] = o at h
  cases h with
  | bytes hserved =>
    rw [Outcome.bytes.injEq] at ho
    rcases List.take_eq_nil_iff.mp ho.symm with hn | hunread
    · exact hn
    · exact hserved.resolve_right fun hne => hne hunread
  | endOfStream _ _ _ => cases ho
  | deadlineExceeded _ _ _ _ => cases ho

/-- The verdict of an attempt, read as what the call comes to. -/
theorem settle_attempt_of_concludes {s : BufferState} {n : Nat} {o : Outcome} {r : Reader}
    (hcall : r.call = .read n) (h : s.Concludes n o) :
    r.settle (s.attempt n).1 = .ended o := by
  rw [attempt_eq]
  show r.settle (s.verdict n (s.queue.unread.take n)) = .ended o
  unfold verdict Reader.settle
  cases h with
  | bytes hserved =>
    have htaken : n = 0 ∨ s.queue.unread.take n ≠ [] := by
      rcases hserved with hn | hne
      · exact Or.inl hn
      · by_cases hn : n = 0
        · exact Or.inl hn
        · exact Or.inr fun hnil => (List.take_eq_nil_iff.mp hnil).elim hn hne
    rw [if_pos htaken, hcall]
  | endOfStream hn hunread hclosed =>
    have hne : n ≠ 0 := by omega
    simp [hne, hunread, hclosed, hcall]
  | deadlineExceeded hn hunread hclosed hreached =>
    have hne : n ≠ 0 := by omega
    simp [hne, hunread, hclosed, hreached, hcall]

/-- A look ends the read in one way at most. -/
theorem Concludes.unique {s : BufferState} {n : Nat} {o o' : Outcome} (h : s.Concludes n o)
    (h' : s.Concludes n o') : o = o' := by
  have hsettle := settle_attempt_of_concludes (r := { id := 0, call := .read n }) rfl h
  rw [settle_attempt_of_concludes rfl h', Progress.ended.injEq] at hsettle
  exact hsettle.symm

theorem Waits.attempt_eq_nothing {s : BufferState} {n : Nat} (h : s.Waits n) :
    (s.attempt n).1 = .nothing := by
  rw [attempt_eq_nothing_iff]
  exact ⟨h.want_pos, h.unread_eq_nil, h.closed_eq_false, h.deadlineReached_eq_false⟩

theorem Waits.not_concludes {s : BufferState} {n : Nat} (h : s.Waits n) (o : Outcome) :
    ¬ s.Concludes n o := by
  intro hconcludes
  have hsettle := settle_attempt_of_concludes (r := { id := 0, call := .read n }) rfl hconcludes
  rw [h.attempt_eq_nothing] at hsettle
  cases hsettle

end BufferState

namespace Reader

theorem want_eq_of_read {r : Reader} {n : Nat} (hcall : r.call = .read n) : r.want = n := by
  rw [want, hcall]

/-- But for a read entered after its deadline, a look is an attempt. -/
theorem look_eq_attempt (r : Reader) {s : BufferState} {entering : Bool}
    (h : entering = false ∨ s.deadlineReached = false) :
    r.look s entering = s.attempt r.want := by
  cases entering with
  | false => rfl
  | true =>
    have hnot : s.deadlineReached = false := h.resolve_left (by simp)
    show s.enter r.want = s.attempt r.want
    rw [BufferState.enter, if_neg (by rw [hnot]; simp)]

variable {r : Reader} {s : BufferState} {n : Nat} {entering : Bool}

/-- A plain read looks once each time it runs. -/
theorem proceed_of_concludes {o : Outcome} (hcall : r.call = .read n)
    (hlook : entering = false ∨ s.deadlineReached = false) (h : s.Concludes n o) :
    (r.proceed s entering).standing = .inl o
      ∧ (r.proceed s entering).state = (s.attempt n).2 := by
  have hattempt := look_eq_attempt r hlook
  rw [want_eq_of_read hcall] at hattempt
  have hsettle := BufferState.settle_attempt_of_concludes hcall h
  rw [← hattempt] at hsettle ⊢
  rw [proceed_of_ended hsettle]
  exact ⟨rfl, rfl⟩

theorem proceed_of_waits_of_read (hcall : r.call = .read n)
    (hlook : entering = false ∨ s.deadlineReached = false) (h : s.Waits n) :
    (r.proceed s entering).standing = .inr r
      ∧ (r.proceed s entering).state = (s.attempt n).2 := by
  have hattempt := look_eq_attempt r hlook
  rw [want_eq_of_read hcall] at hattempt
  have hnothing := h.attempt_eq_nothing
  rw [← hattempt] at hnothing ⊢
  rw [proceed_of_waits ((settle_eq_waits_iff r _).mpr hnothing)]
  exact ⟨rfl, rfl⟩

end Reader

namespace Buffer

/-! ## Calls in the line -/

/-- The places of call `id` in the line. -/
def entries (b : Buffer) (id : Nat) : List Reader := b.waiting.filter fun r => r.id = id

/-- The ends of call `id`. -/
def endsOf (id : Nat) (ended : List (Nat × Outcome)) : List (Nat × Outcome) :=
  ended.filter fun e => e.1 = id

theorem endsOf_append (id : Nat) (first second : List (Nat × Outcome)) :
    endsOf id (first ++ second) = endsOf id first ++ endsOf id second :=
  List.filter_append first second

theorem mem_endsOf {id : Nat} {o : Outcome} {ended : List (Nat × Outcome)} :
    (id, o) ∈ endsOf id ended ↔ (id, o) ∈ ended := by
  simp [endsOf]

theorem mem_waitingIds_iff (b : Buffer) (id : Nat) : id ∈ b.waitingIds ↔ b.entries id ≠ [] := by
  simp [entries, waitingIds]

/-- What another call comes to leaves those of `id` alone. -/
theorem entries_accept_of_ne {b : Buffer} {id other : Nat} {a : Advance} (hne : other ≠ id)
    (hstanding : ∀ r, a.standing = .inr r → r.id = other) :
    (b.accept other a).1.entries id = b.entries id
      ∧ endsOf id (b.accept other a).2.ended = [] := by
  cases hs : a.standing with
  | inl o =>
    rw [accept_of_ended b other hs]
    exact ⟨rfl, by simp [endsOf, hne]⟩
  | inr r =>
    rw [accept_of_waits b other hs]
    refine ⟨?_, rfl⟩
    show (b.waiting ++ [r]).filter _ = b.waiting.filter _
    simp [hstanding r hs, hne]

theorem entries_serve_of_ne (b : Buffer) {id : Nat} {r : Reader} (hne : r.id ≠ id) :
    (b.serve r).1.entries id = b.entries id ∧ endsOf id (b.serve r).2.ended = [] :=
  entries_accept_of_ne hne fun _ hr' => (Reader.stuck_of_proceed hr').1

/-- The line without the reader at a place. -/
theorem exists_eraseIdx_eq {readers : List Reader} {place : Nat} {r : Reader}
    (h : readers[place]? = some r) :
    ∃ front back, readers = front ++ r :: back ∧ readers.eraseIdx place = front ++ back := by
  obtain ⟨hlt, hr⟩ := List.getElem?_eq_some_iff.mp h
  refine ⟨readers.take place, readers.drop (place + 1), ?_,
    List.eraseIdx_eq_take_drop_succ readers place⟩
  rw [← hr, ← List.drop_eq_getElem_cons hlt, List.take_append_drop]

/-! ## Looks -/

/-- The number of the call that looks in a move, if one does. -/
def looker? (b : Buffer) : Move → Option Nat
  | .change _ => none
  | .enter id _ => some id
  | .resume place => b.waiting[place]?.map Reader.id

/-- The states that call `id` looked at, each with the state that it left. -/
def looks (id : Nat) (b : Buffer) : List Move → List (BufferState × BufferState)
  | [] => []
  | m :: rest =>
    (if b.looker? m = some id then [(b.state, (b.move m).1.state)] else [])
      ++ looks id (b.move m).1 rest

theorem looks_cons_of_ne {id : Nat} {b : Buffer} {m : Move} (h : b.looker? m ≠ some id)
    (rest : List Move) : looks id b (m :: rest) = looks id (b.move m).1 rest := by
  rw [looks, if_neg h, List.nil_append]

theorem looks_cons_self {id : Nat} {b : Buffer} {m : Move} (h : b.looker? m = some id)
    (rest : List Move) :
    looks id b (m :: rest) = (b.state, (b.move m).1.state) :: looks id (b.move m).1 rest := by
  rw [looks, if_pos h, List.singleton_append]

/-- A look changes nothing but the queue, whoever looks. -/
theorem control_of_mem_looks {id : Nat} {b : Buffer} {moves : List Move}
    {l : BufferState × BufferState} (h : l ∈ looks id b moves) : l.2.control = l.1.control := by
  induction moves generalizing b with
  | nil => cases h
  | cons m rest ih =>
    by_cases hm : b.looker? m = some id
    · rw [looks_cons_self hm] at h
      rcases List.mem_cons.mp h with rfl | h
      · cases m with
        | change a => cases hm
        | enter id' call => exact (read_served b _).control_eq
        | resume place =>
          obtain ⟨r, hr, -⟩ := Option.map_eq_some_iff.mp hm
          rw [move_resume_of_getElem? hr]
          exact (serve_served { b with waiting := b.waiting.eraseIdx place } r).control_eq
      · exact ih h
    · rw [looks_cons_of_ne hm] at h
      exact ih h

/-- Moves of others leave a call's places in the line alone, and do not end it. -/
theorem entries_move_of_ne {b : Buffer} {id : Nat} {m : Move} (h : b.looker? m ≠ some id) :
    (b.move m).1.entries id = b.entries id ∧ endsOf id (b.move m).2.ended = [] := by
  cases m with
  | change a => exact ⟨rfl, rfl⟩
  | enter other call =>
    have hne : other ≠ id := fun he => h (congrArg some he)
    exact entries_accept_of_ne hne fun r hr => (Reader.stuck_of_start hr).1
  | resume place =>
    cases hplace : b.waiting[place]? with
    | none =>
      rw [move_resume_of_none hplace]
      exact ⟨rfl, rfl⟩
    | some r =>
      have hne : r.id ≠ id := by
        intro he
        rw [looker?, hplace, Option.map_some, he] at h
        exact h rfl
      obtain ⟨front, back, hline, herase⟩ := exists_eraseIdx_eq hplace
      have hserve := entries_serve_of_ne { b with waiting := b.waiting.eraseIdx place } hne
      rw [move_resume_of_getElem? hplace]
      refine ⟨hserve.1.trans ?_, hserve.2⟩
      show (b.waiting.eraseIdx place).filter _ = b.waiting.filter _
      rw [herase, hline]
      simp [hne]

/-- Only a call that enters, or stands in the line, looks. -/
theorem looker?_ne_of_entries_nil {b : Buffer} {id : Nat} {m : Move}
    (hnew : ∀ call, m ≠ .enter id call) (hline : b.entries id = []) : b.looker? m ≠ some id := by
  intro hm
  cases m with
  | change a => cases hm
  | enter other call =>
    rw [looker?, Option.some.injEq] at hm
    exact hnew call (by rw [hm])
  | resume place =>
    obtain ⟨r, hr, hid⟩ := Option.map_eq_some_iff.mp hm
    have hmem : r ∈ b.entries id :=
      List.mem_filter.mpr ⟨List.mem_of_getElem? hr, decide_eq_true hid⟩
    rw [hline] at hmem
    cases hmem

/-- A call that stands in the line once, and looks, leaves its place. -/
theorem move_of_looker?_self {b : Buffer} {r : Reader} {m : Move}
    (hnew : ∀ call, m ≠ .enter r.id call) (hline : b.entries r.id = [r])
    (hm : b.looker? m = some r.id) :
    ∃ b' : Buffer, b'.state = b.state ∧ b'.entries r.id = [] ∧ b.move m = b'.serve r := by
  cases m with
  | change a => cases hm
  | enter other call =>
    rw [looker?, Option.some.injEq] at hm
    exact absurd (by rw [hm]) (hnew call)
  | resume place =>
    obtain ⟨r', hplace, hid⟩ := Option.map_eq_some_iff.mp hm
    obtain ⟨front, back, hwaiting, herase⟩ := exists_eraseIdx_eq hplace
    have hfilter : (front.filter fun x => x.id = r.id)
        ++ r' :: (back.filter fun x => x.id = r.id) = [r] := by
      rw [← hline, entries, hwaiting]
      simp [hid]
    -- the one entry is the reader at that place, so that none is in front of it or behind
    obtain ⟨hfront, hr, hback⟩ : (front.filter fun x => x.id = r.id) = [] ∧ r' = r
        ∧ (back.filter fun x => x.id = r.id) = [] := by
      simpa [List.append_eq_cons_iff] using hfilter
    refine ⟨{ b with waiting := b.waiting.eraseIdx place }, rfl, ?_, ?_⟩
    · show (b.waiting.eraseIdx place).filter _ = []
      rw [herase, List.filter_append, hfront, hback, List.append_nil]
    · rw [move_resume_of_getElem? hplace, hr]

/-! ## The course of a plain read -/

/-- A look took the bytes that there was room for. -/
def Took (n : Nat) (l : BufferState × BufferState) : Prop :=
  l.2.queue.unread = l.1.queue.unread.drop n

/-- What a plain read with room for `n` bytes came to by its looks: its ends and its
    places in the line. -/
inductive Course (id n : Nat) :
    List (BufferState × BufferState) → List (Nat × Outcome) → List Reader → Prop where
  | waits {looks : List (BufferState × BufferState)} {r : Reader} (hid : r.id = id)
      (hlooks : ∀ l ∈ looks, l.1.Waits n ∧ Took n l) : Course id n looks [] [r]
  | ended (looks : List (BufferState × BufferState)) {l : BufferState × BufferState}
      {o : Outcome} (hlooks : ∀ l ∈ looks, l.1.Waits n ∧ Took n l)
      (hlast : l.1.Concludes n o) (htook : Took n l) : Course id n (looks ++ [l]) [(id, o)] []

theorem Course.cons {id n : Nat} {looks : List (BufferState × BufferState)}
    {ended : List (Nat × Outcome)} {line : List Reader} (h : Course id n looks ended line)
    {l : BufferState × BufferState} (hl : l.1.Waits n ∧ Took n l) :
    Course id n (l :: looks) ended line := by
  cases h with
  | waits hid hlooks => exact .waits hid (List.forall_mem_cons.mpr ⟨hl, hlooks⟩)
  | ended looks hlooks hlast htook =>
    exact .ended (l :: looks) (List.forall_mem_cons.mpr ⟨hl, hlooks⟩) hlast htook

/-- The course of call `id` over a run of moves. -/
def HasCourse (b : Buffer) (id n : Nat) (moves : List Move) : Prop :=
  Course id n (looks id b moves) (endsOf id (b.runMoves moves).2.ended)
    ((b.runMoves moves).1.entries id)

/-- What a look of a plain read came to at a state. -/
inductive Looked (r : Reader) (n : Nat) (s : BufferState) (out : Buffer × Effects) : Prop where
  | waits (h : s.Waits n) (htook : Took n (s, out.1.state)) (hline : out.1.entries r.id = [r])
      (hends : endsOf r.id out.2.ended = [])
  | ended {o : Outcome} (h : s.Concludes n o) (htook : Took n (s, out.1.state))
      (hline : out.1.entries r.id = []) (hends : endsOf r.id out.2.ended = [(r.id, o)])

/-- A call that looks at a buffer where it does not wait ends as the look says, or
    stands in the line, once. -/
theorem looked_accept {b : Buffer} {r : Reader} {n : Nat} {entering : Bool}
    (hcall : r.call = .read n) (hlook : entering = false ∨ b.state.deadlineReached = false)
    (hline : b.entries r.id = []) :
    Looked r n b.state (b.accept r.id (r.proceed b.state entering)) := by
  have hunread := BufferState.unread_attempt b.state n
  rcases b.state.concludes_or_waits n with ⟨o, ho⟩ | hwaits
  · obtain ⟨hstanding, hstate⟩ := Reader.proceed_of_concludes hcall hlook ho
    rw [accept_of_ended b r.id hstanding, hstate]
    exact .ended ho hunread hline (by simp [endsOf])
  · obtain ⟨hstanding, hstate⟩ := Reader.proceed_of_waits_of_read hcall hlook hwaits
    rw [accept_of_waits b r.id hstanding, hstate]
    refine .waits hwaits hunread ?_ rfl
    have hbehind : (b.waiting ++ [r]).filter (fun x => x.id = r.id) = b.entries r.id ++ [r] := by
      simp [entries]
    rw [hline] at hbehind
    exact hbehind

/-- A call that is not in the line, and does not enter, neither looks nor ends. -/
theorem idle_runMoves {b : Buffer} {id : Nat} {moves : List Move}
    (hnew : ∀ call, Move.enter id call ∉ moves) (hline : b.entries id = []) :
    looks id b moves = [] ∧ endsOf id (b.runMoves moves).2.ended = []
      ∧ (b.runMoves moves).1.entries id = [] := by
  induction moves generalizing b with
  | nil => exact ⟨rfl, rfl, hline⟩
  | cons m rest ih =>
    have hlooker : b.looker? m ≠ some id := by
      refine looker?_ne_of_entries_nil ?_ hline
      rintro call rfl
      exact hnew call List.mem_cons_self
    obtain ⟨hentries, hends⟩ := entries_move_of_ne hlooker
    obtain ⟨hlooks, hended, hleft⟩ :=
      ih (fun call h => hnew call (List.mem_cons_of_mem m h)) (hentries.trans hline)
    refine ⟨?_, ?_, hleft⟩
    · rw [looks_cons_of_ne hlooker, hlooks]
    · rw [runMoves_cons, Effects.ended_append, endsOf_append, hends, hended, List.append_nil]

/-- The course of a call from a look of its own on. -/
theorem Looked.hasCourse {b : Buffer} {r : Reader} {n : Nat} {m : Move} {rest : List Move}
    (h : Looked r n b.state (b.move m)) (hlooker : b.looker? m = some r.id)
    (hnew : ∀ call, Move.enter r.id call ∉ rest)
    (hrest : (b.move m).1.entries r.id = [r] → (b.move m).1.HasCourse r.id n rest) :
    b.HasCourse r.id n (m :: rest) := by
  rw [HasCourse, looks_cons_self hlooker, runMoves_cons, Effects.ended_append, endsOf_append]
  cases h with
  | waits hwaits htook hline hends =>
    -- the call goes on with one look more before it
    rw [hends, List.nil_append]
    exact (hrest hline).cons ⟨hwaits, htook⟩
  | ended ho htook hline hends =>
    -- it has left the line and does not enter again: this look was its last
    obtain ⟨hlooks, hended, hleft⟩ := idle_runMoves hnew hline
    rw [hends, hended, hlooks, hleft]
    exact .ended [] (by simp) ho htook

/-- A call that waits goes on with its course: by induction on the moves, of which
    only its own looks matter. -/
theorem hasCourse_of_waiting {b : Buffer} {r : Reader} {n : Nat} {moves : List Move}
    (hcall : r.call = .read n) (hline : b.entries r.id = [r])
    (hnew : ∀ call, Move.enter r.id call ∉ moves) : b.HasCourse r.id n moves := by
  induction moves generalizing b with
  | nil =>
    show Course r.id n [] [] (b.entries r.id)
    rw [hline]
    exact .waits rfl (by simp)
  | cons m rest ih =>
    have hnew' : ∀ call, Move.enter r.id call ∉ rest :=
      fun call h => hnew call (List.mem_cons_of_mem m h)
    by_cases hlooker : b.looker? m = some r.id
    · -- it looks from its only place in the line, so that it can only look once here
      have hfirst : ∀ call, m ≠ .enter r.id call := by
        rintro call rfl
        exact hnew call List.mem_cons_self
      obtain ⟨b', hstate, hleft, hmove⟩ := move_of_looker?_self hfirst hline hlooker
      have hlooked : Looked r n b'.state (b'.serve r) := looked_accept hcall (Or.inl rfl) hleft
      rw [hstate, ← hmove] at hlooked
      exact hlooked.hasCourse hlooker hnew' fun h => ih h hnew'
    · -- a move of another leaves it in its place
      obtain ⟨hentries, hends⟩ := entries_move_of_ne hlooker
      have hrest := ih (hentries.trans hline) hnew'
      rw [HasCourse, looks_cons_of_ne hlooker, runMoves_cons, Effects.ended_append,
        endsOf_append, hends, List.nil_append]
      exact hrest

/-- A call that enters while no deadline is reached begins its course with a look. -/
theorem hasCourse_of_enter {b : Buffer} {id n : Nat} {moves : List Move}
    (hreached : b.state.deadlineReached = false) (hline : b.entries id = [])
    (hnew : ∀ call, Move.enter id call ∉ moves) :
    b.HasCourse id n (.enter id (.read n) :: moves) := by
  let r : Reader := { id, call := .read n }
  have hlooked : Looked r n b.state (b.move (.enter id (.read n))) :=
    looked_accept (r := r) rfl (Or.inr hreached) hline
  exact hlooked.hasCourse rfl hnew fun h => hasCourse_of_waiting rfl h hnew

/-! ## Reading a course -/

namespace Course

variable {id n : Nat} {looks : List (BufferState × BufferState)} {ended : List (Nat × Outcome)}
  {line : List Reader}

theorem mem_ended_iff (h : Course id n looks ended line) (o : Outcome) :
    (id, o) ∈ ended ↔ ∃ l ∈ looks, l.1.Concludes n o := by
  cases h with
  | waits hid hlooks =>
    constructor
    · intro hmem
      cases hmem
    · rintro ⟨l, hl, ho⟩
      exact absurd ho ((hlooks l hl).1.not_concludes o)
  | @ended looks l o' hlooks hlast htook =>
    constructor
    · intro hmem
      obtain ⟨-, rfl⟩ := Prod.mk.inj (List.mem_singleton.mp hmem)
      exact ⟨l, by simp, hlast⟩
    · rintro ⟨l', hl', ho⟩
      rcases List.mem_append.mp hl' with hl' | hl'
      · exact absurd ho ((hlooks l' hl').1.not_concludes o)
      · rw [List.mem_singleton.mp hl'] at ho
        rw [ho.unique hlast]
        exact List.mem_singleton_self _

theorem line_ne_nil_iff (h : Course id n looks ended line) :
    line ≠ [] ↔ ∀ l ∈ looks, l.1.Waits n := by
  cases h with
  | waits hid hlooks => exact ⟨fun _ l hl => (hlooks l hl).1, fun _ => by simp⟩
  | @ended looks l o hlooks hlast htook =>
    constructor
    · intro hne
      exact absurd rfl hne
    · intro hwaits
      exact absurd hlast ((hwaits l (by simp)).not_concludes o)

/-- A call that looks again had found nothing. -/
theorem waits_of_mem_dropLast (h : Course id n looks ended line) :
    ∀ l ∈ looks.dropLast, l.1.Waits n := by
  cases h with
  | waits hid hlooks => exact fun l hl => (hlooks l (List.dropLast_subset _ hl)).1
  | ended _ hlooks hlast htook =>
    rw [List.dropLast_concat]
    exact fun l hl => (hlooks l hl).1

theorem length_ended_le_one (h : Course id n looks ended line) : ended.length ≤ 1 := by
  cases h with
  | waits hid hlooks => exact Nat.zero_le 1
  | ended _ hlooks hlast htook => exact Nat.le_refl 1

theorem took_of_mem (h : Course id n looks ended line) : ∀ l ∈ looks, Took n l := by
  cases h with
  | waits hid hlooks => exact fun l hl => (hlooks l hl).2
  | ended _ hlooks hlast htook =>
    intro l hl
    rcases List.mem_append.mp hl with hl | hl
    · exact (hlooks l hl).2
    · rw [List.mem_singleton.mp hl]
      exact htook

/-- A call that fails never had a byte to take. -/
theorem unread_eq_of_failed (h : Course id n looks ended line) {error : ReadError}
    (hfailed : (id, .readFailed error) ∈ ended) :
    ∀ l ∈ looks, l.2.queue.unread = l.1.queue.unread := by
  have hnil : ∀ l ∈ looks, l.1.queue.unread = [] := by
    cases h with
    | waits hid hlooks => cases hfailed
    | @ended looks l o hlooks hlast htook =>
      obtain ⟨-, rfl⟩ := Prod.mk.inj (List.mem_singleton.mp hfailed)
      intro l' hl'
      rcases List.mem_append.mp hl' with hl' | hl'
      · exact (hlooks l' hl').1.unread_eq_nil
      · rw [List.mem_singleton.mp hl']
        exact hlast.unread_eq_nil
  intro l hl
  rw [show l.2.queue.unread = _ from h.took_of_mem l hl, hnil l hl, List.drop_nil]

end Course

/-! ## The outcome -/

/-- A read entered after the deadline was reached fails at once, and leaves the buffer
    as it was. -/
theorem move_enter_of_reached {b : Buffer} (h : b.state.deadlineReached = true) (id n : Nat) :
    b.move (.enter id (.read n)) = (b, { ended := [(id, .readFailed .deadlineExceeded)] }) := by
  let r : Reader := { id, call := .read n }
  have hlook : r.look b.state true = (.failed .deadlineExceeded, b.state) := by
    show b.state.enter n = _
    rw [BufferState.enter, if_pos h]
  have hsettle : r.settle (r.look b.state true).1 = .ended (.readFailed .deadlineExceeded) := by
    rw [hlook]
    rfl
  have hproceed := Reader.proceed_of_ended hsettle
  rw [hlook] at hproceed
  show b.accept r.id (r.proceed b.state true) = _
  rw [hproceed]
  rfl

/-- The outcome of a plain read with room for `n` bytes, whatever else happens while it
    waits. Entered after the deadline was reached, it fails at once and changes nothing.
    Otherwise it ends by the first of its looks, the entry being one, that lets it end,
    and as that look says; until then it waits. Each look takes what there is room for,
    a call that fails took nothing, and no look of any call touches more than the queue.
    Runs of actions are among the runs of moves that this speaks of. -/
theorem read_outcome {b : Buffer} {id n : Nat} {moves : List Move} (hid : id ∉ b.waitingIds)
    (hnew : ∀ call, Move.enter id call ∉ moves) :
    (b.state.deadlineReached = true →
        b.move (.enter id (.read n)) = (b, { ended := [(id, .readFailed .deadlineExceeded)] })
          ∧ endsOf id (b.runMoves (.enter id (.read n) :: moves)).2.ended
              = [(id, .readFailed .deadlineExceeded)]
          ∧ id ∉ (b.runMoves (.enter id (.read n) :: moves)).1.waitingIds)
      ∧ (b.state.deadlineReached = false →
          let run := b.runMoves (.enter id (.read n) :: moves)
          let seen := looks id b (.enter id (.read n) :: moves)
          seen.head? = some (b.state, (b.move (.enter id (.read n))).1.state)
            ∧ (∀ o, (id, o) ∈ run.2.ended ↔ ∃ l ∈ seen, l.1.Concludes n o)
            ∧ (id ∈ run.1.waitingIds ↔ ∀ l ∈ seen, l.1.Waits n)
            ∧ (∀ l ∈ seen.dropLast, l.1.Waits n)
            ∧ (endsOf id run.2.ended).length ≤ 1
            ∧ (∀ l ∈ seen, l.2.queue.unread = l.1.queue.unread.drop n)
            ∧ ((id, .bytes []) ∈ run.2.ended → n = 0)
            ∧ ∀ error, (id, .readFailed error) ∈ run.2.ended →
                ∀ l ∈ seen, l.2.queue.unread = l.1.queue.unread)
      ∧ (∀ other others, ∀ l ∈ looks other b others,
          l.2.closed = l.1.closed ∧ l.2.deadlineReached = l.1.deadlineReached
            ∧ l.2.timer = l.1.timer ∧ l.2.generation = l.1.generation)
      ∧ ∀ actions, ∃ others, Agree (b.runMoves others) (b.runAll actions)
          ∧ ∀ other call, Move.enter other call ∈ others ↔ Action.read other call ∈ actions := by
  have hline : b.entries id = [] :=
    Classical.not_not.mp fun hne => hid ((mem_waitingIds_iff b id).mpr hne)
  refine ⟨fun hreached => ?_, fun hreached => ?_, ?_, exists_runMoves_eq b⟩
  · have hmove := move_enter_of_reached hreached id n
    obtain ⟨-, hended, hleft⟩ := idle_runMoves hnew hline
    refine ⟨hmove, ?_, ?_⟩
    · rw [runMoves_cons, hmove, Effects.ended_append, endsOf_append, hended]
      simp [endsOf]
    · rw [runMoves_cons, hmove, mem_waitingIds_iff, hleft]
      simp
  · intro run seen
    have hcourse : Course id n seen (endsOf id run.2.ended) (run.1.entries id) :=
      hasCourse_of_enter hreached hline hnew
    refine ⟨?_, ?_, ?_, hcourse.waits_of_mem_dropLast, hcourse.length_ended_le_one,
      hcourse.took_of_mem, ?_, ?_⟩
    · show (looks id b (.enter id (.read n) :: moves)).head? = _
      rw [looks_cons_self rfl, List.head?_cons]
    · intro o
      rw [← mem_endsOf]
      exact hcourse.mem_ended_iff o
    · rw [mem_waitingIds_iff]
      exact hcourse.line_ne_nil_iff
    · intro hmem
      obtain ⟨l, -, hl⟩ := (hcourse.mem_ended_iff _).mp (mem_endsOf.mpr hmem)
      exact hl.eq_zero
    · intro error hmem
      exact hcourse.unread_eq_of_failed (mem_endsOf.mpr hmem)
  · intro other others l hl
    exact BufferState.fields_of_control_eq (control_of_mem_looks hl)

/-- A read that is woken without a cause waits on. Then the deadline is reached, the
    buffer is closed, and bytes come, all before it looks again: it takes the bytes. -/
theorem read_outcome_bytes_first :
    let b := ofConfig {}
    let moves : List Move :=
      [.resume 0, .change (.fire 0), .change .close, .change (.write [1, 2, 3]), .resume 0]
    0 ∉ b.waitingIds ∧ (∀ call, Move.enter 0 call ∉ moves)
      ∧ b.state.deadlineReached = false
      ∧ (looks 0 b (.enter 0 (.read 2) :: moves)).length = 3
      ∧ (0, .bytes [1, 2]) ∈ (b.runMoves (.enter 0 (.read 2) :: moves)).2.ended
      ∧ (∃ l ∈ looks 0 b (.enter 0 (.read 2) :: moves), l.1.Concludes 2 (.bytes [1, 2]))
      ∧ ∀ l ∈ (looks 0 b (.enter 0 (.read 2) :: moves)).dropLast, l.1.Waits 2 := by
  intro b moves
  have hid : 0 ∉ b.waitingIds := by decide
  have hnew : ∀ call, Move.enter 0 call ∉ moves := by
    intro call hmem
    simp [moves] at hmem
  obtain ⟨-, hopen, -, -⟩ := read_outcome (n := 2) hid hnew
  obtain ⟨-, hends, -, hbefore, -⟩ := hopen rfl
  have hended : (0, .bytes [1, 2]) ∈ (b.runMoves (.enter 0 (.read 2) :: moves)).2.ended := by
    decide +kernel
  exact ⟨hid, hnew, rfl, by decide +kernel, hended, (hends (.bytes [1, 2])).mp hended, hbefore⟩

end Buffer

end StreamBuffer
