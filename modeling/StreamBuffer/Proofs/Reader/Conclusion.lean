/-
  StreamBuffer.Proofs.Reader.Conclusion

  How a blocked reader ends once its buffer was closed or its deadline reached.

  `Reader.conclude` says it without running the reader: from the cause, the reader
  and the bytes still unread come its outcome and the bytes that it leaves. A plain
  read takes one piece if a byte is there and fails with the cause if none is. The
  repeating calls differ by the cause: closing lets them take all they can use,
  while a reached deadline stops them at their next read, so that a collecting call
  takes one further piece at most.

  `proceed_of_over` is the agreement of the two.
-/
import StreamBuffer.Proofs.Reader.Progress

namespace StreamBuffer

/-! ## What a blocked reader comes to -/

namespace ReadError

/-- What a plain read through the byte-stream interface ends with if no byte is
    left: the end of the stream is a read of no bytes there. -/
def streamOutcome : ReadError → Outcome
  | .endOfStream => .bytes []
  | .deadlineExceeded => .streamFailed (.read .deadlineExceeded)

/-- Why a destination that could not be filled stayed unfilled. -/
def fillError : ReadError → StreamError
  | .endOfStream => .unfilled
  | .deadlineExceeded => .read .deadlineExceeded

end ReadError

namespace Reader

/-- How a blocked reader ends for a cause, while `unread` is unread: its outcome,
    and the bytes it leaves. -/
def conclude (cause : ReadError) (r : Reader) (unread : Bytes) : Outcome × Bytes :=
  match r.call with
  | .read n =>
    (if unread = [] then .readFailed cause else .bytes (unread.take n), unread.drop n)
  | .stream n =>
    (if unread = [] then cause.streamOutcome else .bytes (unread.take n), unread.drop n)
  | .fill n =>
    if n ≤ r.got.length + unread.length then
      (.bytes (r.got ++ unread.take (n - r.got.length)), unread.drop (n - r.got.length))
    else (.streamFailed cause.fillError, [])
  | .toEnd pieces | .toText pieces =>
    match cause with
    | .endOfStream => ((r.collect unread).finish none, [])
    | .deadlineExceeded =>
      let n := pieces.size r.got.length
      ((r.collect (unread.take n)).finish (some (.read .deadlineExceeded)), unread.drop n)

/-- The same for readers one after the other: each finds what the one before it
    left. -/
def concludeAll (cause : ReadError) : List Reader → Bytes → List (Nat × Outcome) × Bytes
  | [], unread => ([], unread)
  | r :: rest, unread =>
    let (outcome, left) := r.conclude cause unread
    let (outcomes, left) := concludeAll cause rest left
    ((r.id, outcome) :: outcomes, left)

/-- Every one of the readers ends, once and in order. -/
theorem ids_concludeAll (cause : ReadError) (readers : List Reader) (unread : Bytes) :
    (concludeAll cause readers unread).1.map Prod.fst = readers.map Reader.id := by
  induction readers generalizing unread with
  | nil => rfl
  | cons r rest ih => exact congrArg (r.id :: ·) (ih (r.conclude cause unread).2)

end Reader

/-! ## States in which no read blocks -/

namespace BufferState

/-- One flag is set and the other is not; a read that finds no byte fails with
    the cause. -/
def Over (s : BufferState) : ReadError → Prop
  | .endOfStream => s.closed = true ∧ s.deadlineReached = false
  | .deadlineExceeded => s.closed = false ∧ s.deadlineReached = true

theorem Over.of_control_eq {s t : BufferState} {cause : ReadError} (h : s.Over cause)
    (hcontrol : t.control = s.control) : t.Over cause := by
  obtain ⟨hclosed, hreached, -, -⟩ := fields_of_control_eq hcontrol
  cases cause with
  | endOfStream => exact ⟨hclosed.trans h.1, hreached.trans h.2⟩
  | deadlineExceeded => exact ⟨hclosed.trans h.1, hreached.trans h.2⟩

theorem attempt_of_over {s : BufferState} {cause : ReadError} {n : Nat} (h : s.Over cause)
    (hn : 0 < n) :
    (s.attempt n).1
      = if s.queue.unread = [] then .failed cause else .taken (s.queue.unread.take n) := by
  have hne : n ≠ 0 := by omega
  rw [attempt_eq]
  show s.verdict n (s.queue.unread.take n) = _
  rw [verdict]
  by_cases hu : s.queue.unread = []
  · cases cause with
    | endOfStream => simp [hne, hu, h.1]
    | deadlineExceeded => simp [hne, hu, h.1, h.2]
  · simp [hne, hu]

theorem unread_attempt (s : BufferState) (n : Nat) :
    (s.attempt n).2.queue.unread = s.queue.unread.drop n := by
  rw [attempt_eq]
  exact SegmentQueue.unread_drain s.queue n

end BufferState

namespace Reader

/-- A reader woken from its wait, or entering a read of a closed buffer, takes a
    piece or fails. -/
theorem look_of_over {r : Reader} {s : BufferState} {cause : ReadError} (entering : Bool)
    (h : s.Over cause) (hwant : 0 < r.want)
    (hentering : entering = false ∨ cause = .endOfStream) :
    (r.look s entering).1
        = (if s.queue.unread = [] then .failed cause else .taken (s.queue.unread.take r.want))
      ∧ (r.look s entering).2.queue.unread = s.queue.unread.drop r.want := by
  have hlook : r.look s entering = s.attempt r.want := by
    rcases hentering with rfl | rfl
    · rfl
    · -- entering a read looks at the deadline alone, which closing leaves alone
      rw [look, BufferState.enter, h.2]
      cases entering <;> rfl
  rw [hlook]
  exact ⟨BufferState.attempt_of_over h hwant, BufferState.unread_attempt s r.want⟩

/-- A look before the deadline was reached finds bytes, or the end of the stream, or
    nothing; entering makes no difference. -/
theorem look_of_unreached {r : Reader} {s : BufferState} (entering : Bool)
    (h : s.deadlineReached = false) (hwant : 0 < r.want) :
    (r.look s entering).1
        = (if s.queue.unread = [] then if s.closed then .failed .endOfStream else .nothing
            else .taken (s.queue.unread.take r.want))
      ∧ (r.look s entering).2.queue.unread = s.queue.unread.drop r.want := by
  have hlook : r.look s entering = s.attempt r.want := by
    rw [look, BufferState.enter, h]
    cases entering <;> rfl
  have hne : r.want ≠ 0 := by omega
  rw [hlook]
  refine ⟨?_, BufferState.unread_attempt s r.want⟩
  rw [BufferState.attempt_eq]
  show s.verdict r.want (s.queue.unread.take r.want) = _
  by_cases hu : s.queue.unread = []
  · simp [BufferState.verdict, hne, hu, h]
  · simp [BufferState.verdict, hne, hu]

/-- A read entered after the deadline was reached fails and takes nothing. -/
theorem look_of_reached (r : Reader) {s : BufferState} (h : s.Over .deadlineExceeded) :
    r.look s true = (.failed .deadlineExceeded, s) := by
  show s.enter r.want = _
  rw [BufferState.enter, if_pos h.2]

/-- A run whose first look ends the call leaves what that look left. -/
theorem proceed_of_look {r : Reader} {s : BufferState} {entering : Bool} {a : Attempt}
    {outcome : Outcome} (hlook : (r.look s entering).1 = a)
    (hsettle : r.settle a = .ended outcome) :
    (r.proceed s entering).standing = .inl outcome
      ∧ (r.proceed s entering).state = (r.look s entering).2 := by
  rw [proceed_of_ended (by rw [hlook]; exact hsettle)]
  exact ⟨rfl, rfl⟩

/-- A reader that finds no byte ends with its failure, whether it was woken or
    enters a further read. -/
theorem proceed_of_unread_nil {r : Reader} {s : BufferState} {cause : ReadError}
    {entering : Bool} {outcome : Outcome} (h : s.Over cause) (hwant : 0 < r.want)
    (hnil : s.queue.unread = []) (hsettle : r.settle (.failed cause) = .ended outcome) :
    (r.proceed s entering).standing = .inl outcome
      ∧ (r.proceed s entering).state.queue.unread = [] := by
  have hlook : (r.look s entering).1 = .failed cause
      ∧ (r.look s entering).2.queue.unread = [] := by
    by_cases hc : entering = false ∨ cause = .endOfStream
    · obtain ⟨hfst, hsnd⟩ := look_of_over entering h hwant hc
      rw [hnil, if_pos rfl] at hfst
      rw [hnil, List.drop_nil] at hsnd
      exact ⟨hfst, hsnd⟩
    · -- what is left is a further read after the deadline: it does not look at all
      obtain ⟨hentering, hcause⟩ := not_or.mp hc
      have hcause : cause = .deadlineExceeded := by cases cause <;> simp_all
      subst hcause
      rw [Bool.not_eq_false] at hentering
      rw [hentering, look_of_reached r h]
      exact ⟨rfl, hnil⟩
  obtain ⟨hstanding, hstate⟩ := proceed_of_look hlook.1 hsettle
  rw [hstate]
  exact ⟨hstanding, hlook.2⟩

/-! ## Calls that collect -/

/-- The reader collects all up to the end, as bytes or as text. -/
def Collects (r : Reader) (pieces : PieceSizes) : Prop :=
  r.call = .toEnd pieces ∨ r.call = .toText pieces

namespace Collects

variable {r : Reader} {pieces : PieceSizes}

theorem collect (h : r.Collects pieces) (bytes : Bytes) : (r.collect bytes).Collects pieces := h

theorem want_eq (h : r.Collects pieces) : r.want = pieces.size r.got.length := by
  rcases h with h | h <;> rw [want, h]

theorem want_pos (h : r.Collects pieces) : 0 < r.want := by
  rw [h.want_eq]
  exact pieces.size_pos _

theorem settle_taken (h : r.Collects pieces) (bytes : Bytes) :
    r.settle (.taken bytes) = .onward (r.collect bytes) := by
  unfold settle
  rcases h with h | h <;> rw [h]

theorem settle_endOfStream (h : r.Collects pieces) :
    r.settle (.failed .endOfStream) = .ended (r.finish none) := by
  unfold settle
  rcases h with h | h <;> rw [h]

theorem settle_deadlineExceeded (h : r.Collects pieces) :
    r.settle (.failed .deadlineExceeded)
      = .ended (r.finish (some (.read .deadlineExceeded))) := by
  unfold settle
  rcases h with h | h <;> rw [h]

theorem conclude_eq (h : r.Collects pieces) (cause : ReadError) (unread : Bytes) :
    r.conclude cause unread = match cause with
      | .endOfStream => ((r.collect unread).finish none, [])
      | .deadlineExceeded =>
        ((r.collect (unread.take r.want)).finish (some (.read .deadlineExceeded)),
          unread.drop r.want) := by
  rw [h.want_eq, conclude]
  rcases h with h | h <;> rw [h]

end Collects

theorem collect_nil (r : Reader) : r.collect [] = r := by
  rw [Reader.collect, List.append_nil]

theorem collect_collect (r : Reader) (a b : Bytes) :
    (r.collect a).collect b = r.collect (a ++ b) := by
  simp only [Reader.collect, List.append_assoc]

/-- While the deadline is not reached a collecting call takes all there is, and then meets
    the end of the stream or waits: by induction on its run, the bytes it has and the bytes
    still unread stay the same in sum. -/
theorem proceed_of_unreached_of_collects {r : Reader} {s : BufferState} {pieces : PieceSizes}
    (entering : Bool) (h : s.deadlineReached = false) (hcollects : r.Collects pieces) :
    (r.proceed s entering).standing
        = (if s.closed then .inl ((r.collect s.queue.unread).finish none)
            else .inr (r.collect s.queue.unread))
      ∧ (r.proceed s entering).state.queue.unread = [] := by
  fun_induction proceed r s entering with
  | case1 r s entering a outcome hs =>
    -- the call ended at this look, so that it found no byte, and the buffer is closed
    obtain ⟨hfst, hsnd⟩ := look_of_unreached entering h hcollects.want_pos
    have hs' : r.settle (r.look s entering).1 = .ended outcome := hs
    by_cases hu : s.queue.unread = []
    · rw [hu, List.drop_nil] at hsnd
      rw [hfst, if_pos hu] at hs'
      cases hc : s.closed with
      | true =>
        rw [if_pos hc, hcollects.settle_endOfStream, Progress.ended.injEq] at hs'
        rw [hu, collect_nil, hs']
        exact ⟨rfl, hsnd⟩
      | false =>
        rw [if_neg (by simp [hc]), (settle_eq_waits_iff r _).mpr rfl] at hs'
        cases hs'
    · rw [hfst, if_neg hu, hcollects.settle_taken] at hs'
      cases hs'
  | case2 r s entering a hs =>
    -- the call waits, so that it found no byte, and the buffer is open
    have hnothing : (r.look s entering).1 = .nothing := (settle_eq_waits_iff r _).mp hs
    obtain ⟨-, hu, hc, -⟩ := (look_eq_nothing_iff r s entering).mp hnothing
    obtain ⟨-, hsnd⟩ := look_of_unreached entering h hcollects.want_pos
    rw [hu, List.drop_nil] at hsnd
    rw [hu, hc, collect_nil]
    exact ⟨rfl, hsnd⟩
  | case3 r s entering a r' hs rest ih =>
    have hr' : r' = r.collect (r.look s entering).1.bytes := eq_collect_of_settle hs
    have hbytes := look_bytes_append_unread r s entering
    obtain ⟨hclosed, hreached, -, -⟩ :=
      BufferState.fields_of_control_eq (look_control r s entering)
    obtain ⟨hstanding, hunread⟩ :=
      ih (hreached.trans h) (by rw [hr']; exact hcollects.collect _)
    refine ⟨?_, hunread⟩
    -- the piece only moved from the queue to the reader
    have hsum : r'.collect (r.look s entering).2.queue.unread = r.collect s.queue.unread := by
      rw [hr', collect_collect, hbytes]
    rw [← hsum, ← hclosed]
    exact hstanding

/-- After the deadline was reached a collecting call takes the piece it waited for
    and fails at its next read. -/
theorem proceed_of_reached_of_collects {r : Reader} {s : BufferState} {pieces : PieceSizes}
    (h : s.Over .deadlineExceeded) (hcollects : r.Collects pieces) :
    (r.proceed s false).standing
        = .inl ((r.collect (s.queue.unread.take r.want)).finish
            (some (.read .deadlineExceeded)))
      ∧ (r.proceed s false).state.queue.unread = s.queue.unread.drop r.want := by
  obtain ⟨hfst, hsnd⟩ := look_of_over false h hcollects.want_pos (Or.inl rfl)
  by_cases hu : s.queue.unread = []
  · rw [hu, List.take_nil, List.drop_nil, collect_nil]
    exact proceed_of_unread_nil h hcollects.want_pos hu hcollects.settle_deadlineExceeded
  · rw [if_neg hu] at hfst
    have honward : r.settle (r.look s false).1
        = .onward (r.collect (s.queue.unread.take r.want)) := by
      rw [hfst]
      exact hcollects.settle_taken _
    have hnext : (r.look s false).2.Over .deadlineExceeded :=
      h.of_control_eq (look_control r s false)
    have hlook := look_of_reached (r.collect (s.queue.unread.take r.want)) hnext
    obtain ⟨hstanding, hstate⟩ := proceed_of_look (congrArg Prod.fst hlook)
      (hcollects.collect _).settle_deadlineExceeded
    rw [hlook] at hstate
    rw [proceed_of_onward honward]
    refine ⟨hstanding, ?_⟩
    show ((r.collect (s.queue.unread.take r.want)).proceed (r.look s false).2
      true).state.queue.unread = s.queue.unread.drop r.want
    rw [hstate]
    exact hsnd

/-! ## Plain reads -/

/-- The reader takes one piece, directly or through the byte-stream interface. -/
def Plain (r : Reader) (n : Nat) : Prop := r.call = .read n ∨ r.call = .stream n

instance (r : Reader) (n : Nat) : Decidable (r.Plain n) :=
  match h : r.call with
  | .read m | .stream m => decidable_of_iff (m = n) (by simp [Plain, h])
  | .fill _ | .toEnd _ | .toText _ => isFalse (by simp [Plain, h])

/-- What a plain read that finds no byte ends with. -/
def failure (r : Reader) (cause : ReadError) : Outcome :=
  match r.call with
  | .stream _ => cause.streamOutcome
  | _ => .readFailed cause

namespace Plain

variable {r : Reader} {n : Nat}

theorem want_eq (h : r.Plain n) : r.want = n := by
  rcases h with h | h <;> rw [want, h]

theorem settle_taken (h : r.Plain n) (bytes : Bytes) :
    r.settle (.taken bytes) = .ended (.bytes bytes) := by
  unfold settle
  rcases h with h | h <;> rw [h]

theorem settle_failed (h : r.Plain n) (cause : ReadError) :
    r.settle (.failed cause) = .ended (r.failure cause) := by
  unfold settle failure
  rcases h with h | h
  · rw [h]
  · rw [h]
    cases cause with
    | endOfStream => rfl
    | deadlineExceeded => rfl

theorem conclude_eq (h : r.Plain n) (cause : ReadError) (unread : Bytes) :
    r.conclude cause unread
      = (if unread = [] then r.failure cause else .bytes (unread.take r.want),
          unread.drop r.want) := by
  rw [h.want_eq]
  unfold conclude failure
  rcases h with h | h <;> rw [h]

end Plain

/-- A plain read takes its piece, or fails. -/
theorem proceed_of_over_of_plain {r : Reader} {s : BufferState} {cause : ReadError} {n : Nat}
    {entering : Bool} (hentering : entering = false ∨ cause = .endOfStream) (h : s.Over cause)
    (hplain : r.Plain n) (hwant : 0 < r.want) :
    (r.proceed s entering).standing = .inl (r.conclude cause s.queue.unread).1
      ∧ (r.proceed s entering).state.queue.unread = (r.conclude cause s.queue.unread).2 := by
  obtain ⟨hfst, hsnd⟩ := look_of_over entering h hwant hentering
  rw [hplain.conclude_eq]
  by_cases hu : s.queue.unread = []
  · rw [if_pos hu, hu, List.drop_nil]
    exact proceed_of_unread_nil h hwant hu (hplain.settle_failed cause)
  · rw [if_neg hu] at hfst ⊢
    obtain ⟨hstanding, hstate⟩ := proceed_of_look hfst (hplain.settle_taken _)
    rw [hstate]
    exact ⟨hstanding, hsnd⟩

/-! ## A destination to be filled -/

section Fill

variable {r : Reader} {n : Nat} (hcall : r.call = .fill n)
include hcall

theorem want_eq_of_fill : r.want = n - r.got.length := by
  rw [want, hcall]

theorem settle_taken_of_fill (bytes : Bytes) :
    r.settle (.taken bytes)
      = if n ≤ r.got.length + bytes.length then .ended (.bytes (r.got ++ bytes))
        else .onward (r.collect bytes) := by
  unfold settle
  rw [hcall]

theorem settle_failed_of_fill (cause : ReadError) :
    r.settle (.failed cause) = .ended (.streamFailed cause.fillError) := by
  unfold settle
  rw [hcall]
  cases cause <;> rfl

theorem conclude_of_fill (cause : ReadError) (unread : Bytes) :
    r.conclude cause unread
      = if n ≤ r.got.length + unread.length then
          (.bytes (r.got ++ unread.take r.want), unread.drop r.want)
        else (.streamFailed cause.fillError, []) := by
  rw [want_eq_of_fill hcall, conclude, hcall]

/-- A piece that completes the destination ends the call. -/
theorem proceed_of_fill_of_enough {s : BufferState} {entering : Bool}
    (hlook : (r.look s entering).1 = .taken (s.queue.unread.take r.want))
    (hleft : (r.look s entering).2.queue.unread = s.queue.unread.drop r.want)
    (henough : n ≤ r.got.length + s.queue.unread.length) :
    (r.proceed s entering).standing = .inl (.bytes (r.got ++ s.queue.unread.take r.want))
      ∧ (r.proceed s entering).state.queue.unread = s.queue.unread.drop r.want := by
  have hwant : r.want = n - r.got.length := want_eq_of_fill hcall
  have hlen : (s.queue.unread.take r.want).length = min r.want s.queue.unread.length :=
    List.length_take
  have hsettle := settle_taken_of_fill hcall (s.queue.unread.take r.want)
  rw [if_pos (by omega)] at hsettle
  obtain ⟨hstanding, hstate⟩ := proceed_of_look hlook hsettle
  rw [hstate]
  exact ⟨hstanding, hleft⟩

/-- A piece that does not complete it is all that was unread; the next read finds no byte,
    and still has room. -/
theorem settle_of_fill_of_less {s : BufferState} {entering : Bool}
    (hlook : (r.look s entering).1 = .taken (s.queue.unread.take r.want))
    (hleft : (r.look s entering).2.queue.unread = s.queue.unread.drop r.want)
    (hless : r.got.length + s.queue.unread.length < n) :
    r.settle (r.look s entering).1 = .onward (r.collect s.queue.unread)
      ∧ (r.look s entering).2.queue.unread = [] ∧ 0 < (r.collect s.queue.unread).want := by
  have hwant : r.want = n - r.got.length := want_eq_of_fill hcall
  have hall : s.queue.unread.take r.want = s.queue.unread :=
    List.take_of_length_le (by omega)
  refine ⟨?_, ?_, ?_⟩
  · rw [hlook, hall, settle_taken_of_fill hcall, if_neg (by omega)]
  · rw [hleft]
    exact List.drop_of_length_le (by omega)
  · rw [want_eq_of_fill (r := r.collect _) hcall]
    show 0 < n - (r.got ++ s.queue.unread).length
    rw [List.length_append]
    omega

end Fill

/-- Filling a destination takes what is missing, or all there is and then fails. -/
theorem proceed_of_over_of_fill {r : Reader} {s : BufferState} {cause : ReadError} {n : Nat}
    {entering : Bool} (hentering : entering = false ∨ cause = .endOfStream) (h : s.Over cause)
    (hcall : r.call = .fill n) (hwant : 0 < r.want) :
    (r.proceed s entering).standing = .inl (r.conclude cause s.queue.unread).1
      ∧ (r.proceed s entering).state.queue.unread = (r.conclude cause s.queue.unread).2 := by
  have hwant_eq : r.want = n - r.got.length := want_eq_of_fill hcall
  obtain ⟨hfst, hsnd⟩ := look_of_over entering h hwant hentering
  rw [conclude_of_fill hcall]
  by_cases hu : s.queue.unread = []
  · rw [hu, List.length_nil, if_neg (by omega)]
    exact proceed_of_unread_nil h hwant hu (settle_failed_of_fill hcall cause)
  · rw [if_neg hu] at hfst
    by_cases henough : n ≤ r.got.length + s.queue.unread.length
    · rw [if_pos henough]
      exact proceed_of_fill_of_enough hcall hfst hsnd henough
    · obtain ⟨hsettle, hnil, hwant'⟩ := settle_of_fill_of_less hcall hfst hsnd (by omega)
      rw [proceed_of_onward hsettle, if_neg henough]
      exact proceed_of_unread_nil (h.of_control_eq (look_control r s entering)) hwant' hnil
        (settle_failed_of_fill (r := r.collect _) hcall cause)

/-! ## The agreement -/

/-- The three kinds of calls. -/
theorem plain_or_fill_or_collects (r : Reader) :
    (∃ n, r.Plain n) ∨ (∃ n, r.call = .fill n) ∨ ∃ pieces, r.Collects pieces := by
  cases hcall : r.call with
  | read n => exact Or.inl ⟨n, Or.inl hcall⟩
  | stream n => exact Or.inl ⟨n, Or.inr hcall⟩
  | fill n => exact Or.inr (Or.inl ⟨n, rfl⟩)
  | toEnd pieces => exact Or.inr (Or.inr ⟨pieces, Or.inl hcall⟩)
  | toText pieces => exact Or.inr (Or.inr ⟨pieces, Or.inr hcall⟩)

/-- A collecting call ends as its cause says. -/
theorem proceed_of_over_of_collects {r : Reader} {s : BufferState} {cause : ReadError}
    {pieces : PieceSizes} {entering : Bool} (hentering : entering = false ∨ cause = .endOfStream)
    (h : s.Over cause) (hcollects : r.Collects pieces) :
    (r.proceed s entering).standing = .inl (r.conclude cause s.queue.unread).1
      ∧ (r.proceed s entering).state.queue.unread = (r.conclude cause s.queue.unread).2 := by
  rw [hcollects.conclude_eq]
  cases cause with
  | endOfStream =>
    have hall := proceed_of_unreached_of_collects entering h.2 hcollects
    rw [if_pos h.1] at hall
    exact hall
  | deadlineExceeded =>
    obtain rfl : entering = false := hentering.resolve_right nofun
    exact proceed_of_reached_of_collects h hcollects

/-- A reader with room in its destination that is woken after a flag was set, or started
    after the buffer was closed, ends, and as `conclude` says. -/
theorem proceed_of_over {r : Reader} {s : BufferState} {cause : ReadError} (entering : Bool)
    (hentering : entering = false ∨ cause = .endOfStream) (h : s.Over cause)
    (hwant : 0 < r.want) :
    (r.proceed s entering).standing = .inl (r.conclude cause s.queue.unread).1
      ∧ (r.proceed s entering).state.queue.unread = (r.conclude cause s.queue.unread).2 := by
  rcases r.plain_or_fill_or_collects with ⟨n, hplain⟩ | ⟨n, hcall⟩ | ⟨pieces, hcollects⟩
  · exact proceed_of_over_of_plain hentering h hplain hwant
  · exact proceed_of_over_of_fill hentering h hcall hwant
  · exact proceed_of_over_of_collects hentering h hcollects

end Reader

end StreamBuffer
