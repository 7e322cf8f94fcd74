/-
  StreamBuffer.Proofs.Reader.Gathering

  How a reader fares while neither flag of its buffer is set.

  `Reader.gather` is the counterpart of `Reader.conclude` for such a state: a plain read takes
  a piece if a byte is there, a destination is filled if there are bytes enough, and all other
  readers take what there is and wait on. `proceed_of_open` is the agreement with the run, for
  a reader that starts as for one that was woken.

  What a reader gathered bit by bit it could have gathered at once (`gather_of_waits`), so that
  it does not matter how the bytes came.
-/
import StreamBuffer.Proofs.Reader.Conclusion

namespace StreamBuffer

/-! ## States in which a read waits -/

namespace BufferState

/-- Neither flag is set. -/
def Open (s : BufferState) : Prop := s.closed = false ∧ s.deadlineReached = false

instance (s : BufferState) : Decidable s.Open := inferInstanceAs (Decidable (_ ∧ _))

theorem Open.of_control_eq {s t : BufferState} (h : s.Open) (hcontrol : t.control = s.control) :
    t.Open := by
  obtain ⟨hclosed, hreached, -, -⟩ := fields_of_control_eq hcontrol
  exact ⟨hclosed.trans h.1, hreached.trans h.2⟩

/-- Else one of them is. -/
theorem open_or_flag (s : BufferState) :
    s.Open ∨ s.closed = true ∨ s.deadlineReached = true := by
  cases hc : s.closed with
  | true => exact Or.inr (Or.inl rfl)
  | false =>
    cases hr : s.deadlineReached with
    | true => exact Or.inr (Or.inr rfl)
    | false => exact Or.inl ⟨hc, hr⟩

/-- Before the deadline is reached, only closing is to tell. -/
theorem open_or_over_of_unreached {s : BufferState} (h : s.deadlineReached = false) :
    s.Open ∨ s.Over .endOfStream := by
  cases hc : s.closed with
  | false => exact Or.inl ⟨hc, h⟩
  | true => exact Or.inr ⟨hc, h⟩

section

variable {s : BufferState} (h : s.Open ∨ ∃ cause, s.Over cause)
include h

/-- Where one flag is set at most, the flag that is set tells the cause. -/
theorem over_of_closed (hclosed : s.closed = true) : s.Over .endOfStream := by
  rcases h with hopen | ⟨_ | _, hover⟩
  · rw [hopen.1] at hclosed
    cases hclosed
  · exact hover
  · rw [hover.1] at hclosed
    cases hclosed

theorem over_of_reached (hreached : s.deadlineReached = true) : s.Over .deadlineExceeded := by
  rcases h with hopen | ⟨_ | _, hover⟩
  · rw [hopen.2] at hreached
    cases hreached
  · rw [hover.2] at hreached
    cases hreached
  · exact hover

end

end BufferState

namespace Reader

/-- How a reader stands while neither flag is set and `unread` is unread: done, or waiting on
    with the bytes it took; and the bytes it leaves. -/
def gather (r : Reader) (unread : Bytes) : (Outcome ⊕ Reader) × Bytes :=
  match r.call with
  | .read n | .stream n =>
    if unread = [] then (.inr r, []) else (.inl (.bytes (unread.take n)), unread.drop n)
  | .fill n =>
    if n ≤ r.got.length + unread.length then
      (.inl (.bytes (r.got ++ unread.take (n - r.got.length))), unread.drop (n - r.got.length))
    else (.inr (r.collect unread), [])
  | .toEnd _ | .toText _ => (.inr (r.collect unread), [])

/-! ## Each kind of call -/

theorem Plain.gather_eq {r : Reader} {n : Nat} (h : r.Plain n) (unread : Bytes) :
    r.gather unread
      = if unread = [] then (.inr r, [])
        else (.inl (.bytes (unread.take r.want)), unread.drop r.want) := by
  rw [h.want_eq]
  unfold gather
  rcases h with h | h <;> rw [h]

theorem gather_of_fill {r : Reader} {n : Nat} (hcall : r.call = .fill n) (unread : Bytes) :
    r.gather unread
      = if n ≤ r.got.length + unread.length then
          (.inl (.bytes (r.got ++ unread.take r.want)), unread.drop r.want)
        else (.inr (r.collect unread), []) := by
  rw [want_eq_of_fill hcall, gather, hcall]

theorem Collects.gather_eq {r : Reader} {pieces : PieceSizes} (h : r.Collects pieces)
    (unread : Bytes) : r.gather unread = (.inr (r.collect unread), []) := by
  unfold gather
  rcases h with h | h <;> rw [h]

/-! ## The agreement -/

section

variable {r : Reader} {s : BufferState} (entering : Bool)

theorem look_of_open (h : s.Open) (hwant : 0 < r.want) :
    (r.look s entering).1
        = (if s.queue.unread = [] then .nothing else .taken (s.queue.unread.take r.want))
      ∧ (r.look s entering).2.queue.unread = s.queue.unread.drop r.want := by
  have hlook := look_of_unreached entering h.2 hwant
  rw [h.1] at hlook
  exact hlook

/-- A reader that finds no byte waits as it is. -/
theorem proceed_of_open_of_unread_nil (h : s.Open) (hwant : 0 < r.want)
    (hnil : s.queue.unread = []) :
    (r.proceed s entering).standing = .inr r
      ∧ (r.proceed s entering).state.queue.unread = [] := by
  obtain ⟨hfst, hsnd⟩ := look_of_open entering h hwant
  rw [hnil, if_pos rfl] at hfst
  rw [hnil, List.drop_nil] at hsnd
  rw [proceed_of_waits ((settle_eq_waits_iff r _).mpr hfst)]
  exact ⟨rfl, hsnd⟩

theorem proceed_of_open_of_plain {n : Nat} (h : s.Open) (hplain : r.Plain n)
    (hwant : 0 < r.want) :
    (r.proceed s entering).standing = (r.gather s.queue.unread).1
      ∧ (r.proceed s entering).state.queue.unread = (r.gather s.queue.unread).2 := by
  obtain ⟨hfst, hsnd⟩ := look_of_open entering h hwant
  rw [hplain.gather_eq]
  by_cases hu : s.queue.unread = []
  · rw [if_pos hu]
    exact proceed_of_open_of_unread_nil entering h hwant hu
  · rw [if_neg hu] at hfst ⊢
    obtain ⟨hstanding, hstate⟩ := proceed_of_look hfst (hplain.settle_taken _)
    rw [hstate]
    exact ⟨hstanding, hsnd⟩

theorem proceed_of_open_of_fill {n : Nat} (h : s.Open) (hcall : r.call = .fill n)
    (hwant : 0 < r.want) :
    (r.proceed s entering).standing = (r.gather s.queue.unread).1
      ∧ (r.proceed s entering).state.queue.unread = (r.gather s.queue.unread).2 := by
  obtain ⟨hfst, hsnd⟩ := look_of_open entering h hwant
  rw [gather_of_fill hcall]
  by_cases hu : s.queue.unread = []
  · have hwant_eq : r.want = n - r.got.length := want_eq_of_fill hcall
    rw [hu, List.length_nil, if_neg (by omega), collect_nil]
    exact proceed_of_open_of_unread_nil entering h hwant hu
  · rw [if_neg hu] at hfst
    by_cases henough : n ≤ r.got.length + s.queue.unread.length
    · rw [if_pos henough]
      exact proceed_of_fill_of_enough hcall hfst hsnd henough
    · -- it takes all there is, and finds nothing at its next look
      obtain ⟨hsettle, hnil, hwant'⟩ := settle_of_fill_of_less hcall hfst hsnd (by omega)
      rw [proceed_of_onward hsettle, if_neg henough]
      exact proceed_of_open_of_unread_nil true (h.of_control_eq (look_control r s entering)) hwant'
        hnil

theorem proceed_of_open_of_collects {pieces : PieceSizes} (h : s.Open)
    (hcollects : r.Collects pieces) :
    (r.proceed s entering).standing = (r.gather s.queue.unread).1
      ∧ (r.proceed s entering).state.queue.unread = (r.gather s.queue.unread).2 := by
  have hall := proceed_of_unreached_of_collects entering h.2 hcollects
  rw [h.1] at hall
  rw [hcollects.gather_eq]
  exact hall

/-- A reader with room in its destination that runs while neither flag is set, started or
    woken, comes as far as `gather` says. -/
theorem proceed_of_open (h : s.Open) (hwant : 0 < r.want) :
    (r.proceed s entering).standing = (r.gather s.queue.unread).1
      ∧ (r.proceed s entering).state.queue.unread = (r.gather s.queue.unread).2 := by
  rcases r.plain_or_fill_or_collects with ⟨n, hplain⟩ | ⟨n, hcall⟩ | ⟨pieces, hcollects⟩
  · exact proceed_of_open_of_plain entering h hplain hwant
  · exact proceed_of_open_of_fill entering h hcall hwant
  · exact proceed_of_open_of_collects entering h hcollects

end

/-! ## Bytes that come bit by bit -/

/-- Where there is none, a reader with room waits as it is. -/
theorem gather_nil {r : Reader} (hwant : 0 < r.want) : r.gather [] = (.inr r, []) := by
  rcases r.plain_or_fill_or_collects with ⟨n, hplain⟩ | ⟨n, hcall⟩ | ⟨pieces, hcollects⟩
  · rw [hplain.gather_eq, if_pos rfl]
  · have hwant_eq : r.want = n - r.got.length := want_eq_of_fill hcall
    rw [gather_of_fill hcall, List.length_nil, if_neg (by omega), collect_nil]
  · rw [hcollects.gather_eq, collect_nil]

section

variable {r r' : Reader} {unread : Bytes} (h : (r.gather unread).1 = .inr r')
include h

/-- A plain read that waits found no byte. -/
theorem gather_plain_of_waits {n : Nat} (hplain : r.Plain n) : unread = [] ∧ r' = r := by
  rw [hplain.gather_eq] at h
  split at h
  · rename_i hnil
    exact ⟨hnil, (Sum.inr.inj h).symm⟩
  · cases h

/-- A destination that waits has all there was, and room for more. -/
theorem gather_fill_of_waits {n : Nat} (hcall : r.call = .fill n) :
    r.got.length + unread.length < n ∧ r' = r.collect unread := by
  rw [gather_of_fill hcall] at h
  split at h
  · cases h
  · exact ⟨by omega, (Sum.inr.inj h).symm⟩

theorem gather_collects_of_waits {pieces : PieceSizes} (hcollects : r.Collects pieces) :
    r' = r.collect unread := by
  rw [hcollects.gather_eq] at h
  exact (Sum.inr.inj h).symm

/-- What comes later completes the destination where all at once would have. -/
theorem gather_fill_append {n : Nat} (hcall : r.call = .fill n) (more : Bytes) :
    r'.gather more = r.gather (unread ++ more) := by
  obtain ⟨hless, rfl⟩ := gather_fill_of_waits h hcall
  have hwant : r.want = n - r.got.length := want_eq_of_fill hcall
  have hwant' : (r.collect unread).want = n - r.got.length - unread.length := by
    rw [want_eq_of_fill (r := r.collect unread) hcall]
    show n - (r.got ++ unread).length = _
    rw [List.length_append]
    omega
  -- the bytes that wait are within what was wanted, and the rest of that comes behind them
  have hall : unread.take r.want = unread := List.take_of_length_le (by omega)
  have hnone : unread.drop r.want = [] := List.drop_of_length_le (by omega)
  rw [gather_of_fill (r := r.collect unread) hcall, gather_of_fill hcall, hwant', collect_collect,
    List.take_append, List.drop_append, hall, hnone, hwant, List.nil_append]
  simp only [Reader.collect, List.length_append, List.append_assoc, Nat.add_assoc]

/-- A reader that waits on left nothing, and what comes later it gathers as if all had come
    at once. -/
theorem gather_of_waits :
    (r.gather unread).2 = [] ∧ ∀ more, r'.gather more = r.gather (unread ++ more) := by
  rcases r.plain_or_fill_or_collects with ⟨n, hplain⟩ | ⟨n, hcall⟩ | ⟨pieces, hcollects⟩
  · -- a plain read waits for its first byte
    obtain ⟨rfl, rfl⟩ := gather_plain_of_waits h hplain
    refine ⟨?_, fun more => rfl⟩
    rw [hplain.gather_eq, if_pos rfl]
  · obtain ⟨hless, -⟩ := gather_fill_of_waits h hcall
    refine ⟨?_, gather_fill_append h hcall⟩
    rw [gather_of_fill hcall, if_neg (by omega)]
  · obtain rfl := gather_collects_of_waits h hcollects
    rw [hcollects.gather_eq]
    refine ⟨rfl, fun more => ?_⟩
    rw [(hcollects.collect unread).gather_eq, hcollects.gather_eq, collect_collect]

/-- A reader that waits on is the same call, and still has room. -/
theorem request_of_gather (hwant : 0 < r.want) :
    r'.id = r.id ∧ r'.call = r.call ∧ 0 < r'.want := by
  rcases r.plain_or_fill_or_collects with ⟨n, hplain⟩ | ⟨n, hcall⟩ | ⟨pieces, hcollects⟩
  · obtain ⟨-, rfl⟩ := gather_plain_of_waits h hplain
    exact ⟨rfl, rfl, hwant⟩
  · obtain ⟨hless, rfl⟩ := gather_fill_of_waits h hcall
    refine ⟨rfl, rfl, ?_⟩
    rw [want_eq_of_fill (r := r.collect unread) hcall]
    show 0 < n - (r.got ++ unread).length
    rw [List.length_append]
    omega
  · obtain rfl := gather_collects_of_waits h hcollects
    exact ⟨rfl, rfl, (hcollects.collect unread).want_pos⟩

/-- At the end of the stream it ends as if it had found all bytes there. -/
theorem conclude_of_waits : r'.conclude .endOfStream [] = r.conclude .endOfStream unread := by
  rcases r.plain_or_fill_or_collects with ⟨n, hplain⟩ | ⟨n, hcall⟩ | ⟨pieces, hcollects⟩
  · obtain ⟨rfl, rfl⟩ := gather_plain_of_waits h hplain
    rfl
  · obtain ⟨hless, rfl⟩ := gather_fill_of_waits h hcall
    rw [conclude_of_fill (r := r.collect unread) hcall, conclude_of_fill hcall]
    simp only [Reader.collect, List.length_append, List.length_nil, Nat.add_zero]
    rw [if_neg (by omega), if_neg (by omega)]
  · obtain rfl := gather_collects_of_waits h hcollects
    rw [(hcollects.collect unread).conclude_eq, hcollects.conclude_eq]
    simp only [collect_nil]

end

end Reader

end StreamBuffer
