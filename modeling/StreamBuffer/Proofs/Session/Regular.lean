/-
  StreamBuffer.Proofs.Session.Regular

  What holds of a session between any two of its steps.

  A session is regular if no timer is left to itself, handles and changes in flight are of
  buffers that are there, and each call that waits does so once and has begun
  (`Session.Regular`). Every transition keeps this for one reason, that it acts on buffers
  only (`Regular.of_acts`); so do operations with all that runs inside them
  (`Op.regular_run`), and every boundary between steps is regular (`Past.regular`).
-/
import StreamBuffer.Proofs.Session.Tending
import StreamBuffer.Proofs.Session.Trail

namespace StreamBuffer

namespace Session

/-- No timer is left to itself, handles and changes in flight are of buffers that are there,
    and each call that waits does so once and has begun. -/
structure Regular (s : Session) : Prop where
  tended : s.Tended none
  handles : s.HandlesValid
  armings : ∀ a ∈ s.armings, a.buffer < s.buffers.length
  line_nodup : s.line.Nodup
  line_lt : ∀ i ∈ s.line, i < s.started

theorem Leads.length_le {s t : Session} (h : s.Leads t) : s.buffers.length ≤ t.buffers.length := by
  by_contra hlt
  have hb : t.buffers.length < s.buffers.length := Nat.lt_of_not_le hlt
  obtain ⟨buffer, hbuffer, -⟩ := h.threadName_eq (List.getElem?_eq_getElem hb)
  exact Nat.lt_irrefl _ (List.getElem?_eq_some_iff.mp hbuffer).1

namespace Regular

variable {s t : Session}

/-- The calls that end, and those that wait afterwards, are different calls that waited or
    that begin. -/
theorem nodup_acts (h : s.Regular) {begun : List Nat} {ended : List (Nat × Outcome)} {k : Nat}
    (hacts : Acts s begun ended t) (hbegun : begun = List.range' s.started k) :
    (Buffer.endedIds ended ++ t.line).Nodup
      ∧ ∀ i ∈ Buffer.endedIds ended ++ t.line, i < s.started + k := by
  have hperm : (Buffer.endedIds ended ++ t.line).Perm (s.line ++ begun) := hacts.balanced
  have hlt : ∀ i ∈ s.line ++ begun, i < s.started + k := by
    intro i hi
    rcases List.mem_append.mp hi with hi | hi
    · have := h.line_lt i hi
      omega
    · rw [hbegun, List.mem_range'_1] at hi
      exact hi.2
  refine ⟨hperm.nodup_iff.mpr (List.nodup_append.mpr ⟨h.line_nodup, ?_, ?_⟩), fun i hi => ?_⟩
  · rw [hbegun]
    exact List.nodup_range'
  · intro i hi j hj hij
    have hbefore := h.line_lt i hi
    rw [hbegun, List.mem_range'_1] at hj
    omega
  · exact hlt i (hperm.mem_iff.mp hi)

/-- What acts on buffers only, and leaves no timer to itself. -/
theorem of_acts (h : s.Regular) {begun : List Nat} {ended : List (Nat × Outcome)} {k : Nat}
    (hacts : Acts s begun ended t) (hbegun : begun = List.range' s.started k)
    (hstarted : t.started = s.started + k) (htended : t.Tended none)
    (harmings : ∀ a ∈ t.armings, a ∈ s.armings ∨ a.buffer < t.buffers.length) : t.Regular := by
  obtain ⟨hnodup, hlt⟩ := h.nodup_acts hacts hbegun
  refine ⟨htended, hacts.leads.handlesValid h.handles, fun a ha => ?_,
    (List.nodup_append.mp hnodup).2.1, fun i hi => ?_⟩
  · rcases harmings a ha with hold | hnew
    · exact Nat.lt_of_lt_of_le (h.armings a hold) hacts.leads.length_le
    · exact hnew
  · rw [hstarted]
    exact hlt i (List.mem_append_right _ hi)

/-- What acts on buffers only, begins no call and puts no change in flight. -/
theorem of_acts_quiet (h : s.Regular) {ended : List (Nat × Outcome)} (hacts : Acts s [] ended t)
    (hstarted : t.started = s.started) (htended : t.Tended none)
    (harmings : ∀ a ∈ t.armings, a ∈ s.armings) : t.Regular :=
  h.of_acts (k := 0) hacts rfl hstarted htended fun a ha => Or.inl (harmings a ha)

theorem onBuffer (h : s.Regular) (b : Nat) {a : Buffer.Action} (ha : a.takes = false)
    (hbegun : a.begun = []) : (s.onBuffer b (·.act a)).1.Regular := by
  refine h.of_acts_quiet (acts_onBuffer s b hbegun) (s.started_onBuffer b _) (h.tended.act b ha) ?_
  rw [armings_onBuffer]
  exact fun a ha => ha

theorem create (h : s.Regular) (c : Config) : (s.create c).1.Regular :=
  h.of_acts_quiet (acts_create s c) rfl (h.tended.create c) fun _ ha => ha

theorem share (h : s.Regular) {b : Nat} (hb : some b ∈ s.handles) : (s.share b).1.Regular :=
  h.of_acts_quiet (acts_share hb) rfl (h.tended.of_eq rfl rfl) fun _ ha => ha

theorem retire (h : s.Regular) (b : Nat) : (s.retire b).Regular := by
  refine h.of_acts_quiet (acts_retire s b) (s.started_retire b) (h.tended.retire b) ?_
  rw [armings_retire]
  exact fun a ha => ha

/-- A handle goes. -/
theorem release (h : s.Regular) (i : Nat) :
    ({ s with handles := s.handles.set i none } : Session).Regular := by
  have hless : ∀ x, some x ∈ s.handles.set i none → some x ∈ s.handles := by
    intro x hx
    rcases List.mem_or_eq_of_mem_set hx with hx | hx
    · exact hx
    · cases hx
  exact h.of_acts_quiet (.quiet rfl hless) rfl (h.tended.of_eq rfl rfl) fun _ ha => ha

theorem drop (h : s.Regular) (i b : Nat) : (s.drop i b).Regular := (h.release i).retire b

theorem read (h : s.Regular) {b : Nat} {buffer : Buffer} (hb : s.buffers[b]? = some buffer)
    (call : Call) : (s.read b call).1.Regular := by
  refine h.of_acts (k := 1) (acts_read hb call) rfl (started_read s b call) ?_ ?_
  · exact Tended.act (s := { s with started := s.started + 1 }) (h.tended.of_eq rfl rfl) b
      (a := .read s.started call) rfl
  · have hsame : (s.read b call).1.armings = s.armings := armings_onBuffer _ b _
    rw [hsame]
    exact fun a ha => Or.inl ha

theorem startDeadline (h : s.Regular) (b : Nat) (lead : Option Lead) :
    (s.startDeadline b lead).1.Regular := by
  refine h.of_acts (k := 0) (acts_startDeadline s b lead) rfl (s.started_startDeadline b lead)
    (h.tended.startDeadline b lead) fun x hx => ?_
  have hcases := s.startDeadline_cases b lead
  dsimp only at hcases
  rcases hcases with ⟨hfirst, -⟩ | ⟨a, buffer, hbuffer, rfl, -, hfirst, -⟩
  · rw [hfirst, armings_onBuffer] at hx
    exact Or.inl hx
  · rw [hfirst] at hx ⊢
    rcases List.mem_cons.mp hx with rfl | hx
    · exact Or.inr (List.getElem?_eq_some_iff.mp hbuffer).1
    · rw [armings_onBuffer] at hx
      exact Or.inl hx

theorem finishDeadline (h : s.Regular) {a : Arming} (ha : a ∈ s.armings) (launch : Launch) :
    (s.finishDeadline a launch).1.Regular := by
  refine h.of_acts_quiet (acts_finishDeadline s a launch) (s.started_finishDeadline a launch)
    (h.tended.finishDeadline (List.getElem?_eq_getElem (h.armings a ha)) launch) fun x hx => ?_
  rw [armings_finishDeadline] at hx
  exact List.mem_of_mem_erase hx

theorem elapse (h : s.Regular) : s.elapse.1.Regular := by
  refine h.of_acts_quiet (acts_elapse s) (started_wakeAlarms _ _ _) h.tended.elapse fun x hx => ?_
  have hsame : s.elapse.1.armings = s.armings := armings_wakeAlarms _ _ _
  rw [hsame] at hx
  exact hx

/-- The buffer that a handle refers to is there. -/
theorem exists_buffer (h : s.Regular) {handle b : Nat} (hb : s.bufferOf? handle = some b) :
    ∃ buffer, s.buffers[b]? = some buffer :=
  ⟨_, List.getElem?_eq_getElem (h.handles b (mem_handles_of_bufferOf? hb))⟩

/-- A session without buffers is regular. -/
theorem empty : ({} : Session).Regular where
  tended := ⟨nofun, nofun, nofun⟩
  handles := nofun
  armings := nofun
  line_nodup := .nil
  line_lt := nofun

end Regular

end Session

mutual

-- on the tree of operations: those inside a change of a deadline are a list of their own

/-- An operation, with all that runs inside it. -/
theorem Op.regular_run (op : Op) {s : Session} (h : s.Regular) : (op.run s).1.Regular := by
  match op with
  | .create handle config => exact h.create config
  | .share handle =>
    exact Session.withHandle_cases handle h fun b hb =>
      h.share (Session.mem_handles_of_bufferOf? hb)
  | .drop handle => exact Session.withHandle_cases handle h fun b _ => h.drop handle b
  | .write handle chunk =>
    exact Session.withHandle_cases handle h fun b _ => h.onBuffer b (a := .write chunk) rfl rfl
  | .close handle =>
    exact Session.withHandle_cases handle h fun b _ => h.onBuffer b (a := .close) rfl rfl
  | .inspect handle => exact Session.withHandle_cases handle h fun b _ => h
  | .read handle call =>
    refine Session.withHandle_cases handle h fun b hb => ?_
    obtain ⟨buffer, hbuffer⟩ := h.exists_buffer hb
    exact h.read hbuffer call
  | .deadline handle lead during launch =>
    unfold Op.run
    refine Session.withHandle_cases handle h fun b _ => ?_
    have hfirst := h.startDeadline b lead
    have hcases := s.startDeadline_cases b lead
    dsimp only at hcases ⊢
    rcases hcases with ⟨-, hdone⟩ | ⟨a, buffer, -, -, -, harmings, hopening⟩
    · split
      · exact hfirst
      · exact hfirst
      · rename_i a hopening
        exact absurd hopening (hdone a)
    · rw [hopening]
      have hinside := Op.regular_runAll during hfirst
      -- the change is still in flight, since what runs inside it leaves the others alone
      have ha : a ∈ (Op.runAll during (s.startDeadline b lead).1).1.armings := by
        rw [Op.armings_runAll, harmings]
        exact List.mem_cons_self
      exact (hinside.finishDeadline ha launch).retire b
  | .elapse handle => exact h.elapse

/-- Operations one after the other. -/
theorem Op.regular_runAll (ops : List Op) {s : Session} (h : s.Regular) :
    (Op.runAll ops s).1.Regular := by
  match ops with
  | [] => exact h
  | op :: rest => exact Op.regular_runAll rest (Op.regular_run op h)

end

/-- Between any two steps the session is regular. -/
theorem Session.Past.regular {s t : Session} {ops : List Op} {steps : List Step}
    {seen : List Report} {underway : List (Nat × Outcome)}
    (hpast : Session.Past s ops steps seen underway t) (h : s.Regular) : t.Regular := by
  induction hpast with
  | here s ops => exact h
  | @next s t op ops steps seen underway _ ih => exact ih (Op.regular_run op h)
  | @inside s t first e a handle b lead during ops launch steps seen underway _ hfirst _ ih =>
    have hregular := h.startDeadline b lead
    rw [hfirst] at hregular
    exact ih hregular

end StreamBuffer
