/-
  StreamBuffer.Proofs.Session.Action

  Whatever a session does, it does to its buffers by actions only.

  `Acts s begun ended t` says that `s` comes to `t` that way, by actions on single
  buffers and by new buffers, and which calls begin and which end on it. One lemma for
  each transition of a session says that it is such a way, and with what labels; an
  operation with all that runs inside it is one by composition (`Op.acts_run`). What
  actions keep, sessions then keep by induction on `Acts`, and the transitions need not
  be looked at again.
-/
import StreamBuffer.Proofs.Buffer.Calls
import StreamBuffer.Session.Op

namespace StreamBuffer

namespace Session

/-! ## Ways from one session to another -/

/-- `s` comes to `t` by actions on its buffers and by new buffers; `begun` are the
    numbers of the calls that begin on the way, `ended` those that end, with their
    outcomes, each in order. A new handle refers to a buffer that had one already, or
    to a new one. -/
inductive Acts : Session → List Nat → List (Nat × Outcome) → Session → Prop where
  | quiet {s t : Session} (hbuffers : t.buffers = s.buffers)
      (hhandles : ∀ b, some b ∈ t.handles → some b ∈ s.handles) : Acts s [] [] t
  | act {s t : Session} {b : Nat} {buffer : Buffer} (a : Buffer.Action)
      (hbuffer : s.buffers[b]? = some buffer)
      (hbuffers : t.buffers = s.buffers.set b (buffer.act a).1)
      (hhandles : t.handles = s.handles) : Acts s a.begun (buffer.act a).2.ended t
  | create {s t : Session} (c : Config) (hbuffers : t.buffers = s.buffers ++ [.ofConfig c])
      (hhandles : t.handles = s.handles ++ [some s.buffers.length]) : Acts s [] [] t
  | trans {s t u : Session} {begun₁ begun₂ : List Nat} {ended₁ ended₂ : List (Nat × Outcome)}
      (h₁ : Acts s begun₁ ended₁ t) (h₂ : Acts t begun₂ ended₂ u) :
      Acts s (begun₁ ++ begun₂) (ended₁ ++ ended₂) u

theorem Acts.refl (s : Session) : Acts s [] [] s := .quiet rfl fun _ h => h

/-- Clock, timers, changes in flight and the number of calls may be as they like. -/
theorem Acts.of_eq {s t u : Session} {begun : List Nat} {ended : List (Nat × Outcome)}
    (h : Acts s begun ended t) (hbuffers : u.buffers = t.buffers)
    (hhandles : u.handles = t.handles) : Acts s begun ended u := by
  have hquiet : Acts t [] [] u := by
    refine .quiet hbuffers ?_
    intro b hb
    rw [← hhandles]
    exact hb
  have htrans := h.trans hquiet
  rw [List.append_nil, List.append_nil] at htrans
  exact htrans

/-- The other way round, on the side of the start. -/
theorem Acts.of_eq_left {s t u : Session} {begun : List Nat} {ended : List (Nat × Outcome)}
    (h : Acts t begun ended u) (hbuffers : t.buffers = s.buffers)
    (hhandles : t.handles = s.handles) : Acts s begun ended u := by
  have hquiet : Acts s [] [] t := by
    refine .quiet hbuffers ?_
    intro b hb
    rw [← hhandles]
    exact hb
  exact hquiet.trans h

/-! ## The transitions of a session -/

/-- Stopping timers changes nothing but timers. -/
theorem stopAlarms_eq (s : Session) (ids : List Nat) :
    ∃ alarms, s.stopAlarms ids = { s with alarms } := by
  induction ids generalizing s with
  | nil => exact ⟨s.alarms, rfl⟩
  | cons i rest ih => exact ih (s.stopAlarm i)

/-- An operation on a buffer leaves the clock, the handles, the changes in flight and
    the number of calls alone. -/
theorem onBuffer_eq (s : Session) (b : Nat) (f : Buffer → Buffer × Effects) :
    ∃ buffers alarms records, (s.onBuffer b f).1 = { s with buffers, alarms, records } := by
  rw [onBuffer]
  split
  · exact ⟨s.buffers, s.alarms, s.records, rfl⟩
  · rename_i buffer _
    obtain ⟨alarms, hstop⟩ := stopAlarms_eq (s.put b (f buffer)) (f buffer).2.released
    exact ⟨(s.put b (f buffer)).buffers, alarms, (s.put b (f buffer)).records, hstop⟩

/-- An action on a buffer that is there. -/
theorem acts_onBuffer_of_getElem? {s : Session} {b : Nat} {buffer : Buffer}
    (h : s.buffers[b]? = some buffer) (a : Buffer.Action) :
    Acts s a.begun (s.onBuffer b fun x => x.act a).2.ended (s.onBuffer b fun x => x.act a).1 := by
  rw [onBuffer, h]
  obtain ⟨alarms, hstop⟩ := stopAlarms_eq (s.put b (buffer.act a)) (buffer.act a).2.released
  have hbuffers := congrArg Session.buffers hstop
  have hhandles := congrArg Session.handles hstop
  exact .act a h hbuffers hhandles

/-- An action that begins no call, whether the buffer is there or not. -/
theorem acts_onBuffer (s : Session) (b : Nat) {a : Buffer.Action} (ha : a.begun = []) :
    Acts s [] (s.onBuffer b fun x => x.act a).2.ended (s.onBuffer b fun x => x.act a).1 := by
  cases h : s.buffers[b]? with
  | none =>
    rw [onBuffer, h]
    exact .refl s
  | some buffer =>
    rw [← ha]
    exact acts_onBuffer_of_getElem? h a

/-- Giving up the timer of a buffer that nothing holds on to ends no call. -/
theorem acts_retire (s : Session) (b : Nat) : Acts s [] [] (s.retire b) := by
  rw [retire]
  split
  · exact .refl s
  · have h := acts_onBuffer s b (a := .abandon) rfl
    have hended : (s.onBuffer b fun x => x.act .abandon).2.ended = [] := by
      rw [onBuffer]
      split <;> rfl
    rw [hended] at h
    exact h

theorem acts_create (s : Session) (c : Config) : Acts s [] [] (s.create c).1 :=
  .create c rfl rfl

/-- A handle that goes by its place refers to a buffer. -/
theorem mem_handles_of_bufferOf? {s : Session} {h b : Nat} (hb : s.bufferOf? h = some b) :
    some b ∈ s.handles :=
  List.mem_of_getElem? (Option.join_eq_some_iff.mp hb)

theorem acts_share {s : Session} {b : Nat} (hb : some b ∈ s.handles) :
    Acts s [] [] (s.share b).1 := by
  refine .quiet rfl ?_
  intro x hx
  rcases List.mem_append.mp hx with hx | hx
  · exact hx
  · rw [List.mem_singleton.mp hx]
    exact hb

theorem acts_drop (s : Session) (h b : Nat) : Acts s [] [] (s.drop h b) := by
  have hquiet : Acts s [] [] { s with handles := s.handles.set h none } := by
    refine .quiet rfl ?_
    intro x hx
    rcases List.mem_or_eq_of_mem_set hx with hx | hx
    · exact hx
    · cases hx
  exact hquiet.trans (acts_retire _ b)

theorem acts_write (s : Session) (b : Nat) (chunk : Bytes) :
    Acts s [] (s.write b chunk).2.ended (s.write b chunk).1 :=
  acts_onBuffer s b (a := .write chunk) rfl

theorem acts_close (s : Session) (b : Nat) : Acts s [] (s.close b).2.ended (s.close b).1 :=
  acts_onBuffer s b (a := .close) rfl

/-- A call begins on a buffer that is there, under the session's next number. -/
theorem acts_read {s : Session} {b : Nat} {buffer : Buffer} (h : s.buffers[b]? = some buffer)
    (call : Call) : Acts s [s.started] (s.read b call).2.ended (s.read b call).1 := by
  have hbuffer : ({ s with started := s.started + 1 } : Session).buffers[b]? = some buffer := h
  refine Acts.of_eq_left (acts_onBuffer_of_getElem? hbuffer (.read s.started call)) ?_ ?_ <;> rfl

/-- A timer's thread touches a buffer only through the callback. -/
theorem acts_wakeAlarm (s : Session) (reading i : Nat) :
    Acts s [] (s.wakeAlarm reading i).2.ended (s.wakeAlarm reading i).1 := by
  rw [wakeAlarm]
  split
  · exact .refl s
  · rename_i alarm _
    dsimp only
    split
    · have hfire := acts_onBuffer
        { s with alarms := s.alarms.set i { alarm with timer := alarm.timer.wake reading } }
        alarm.buffer (a := .fire alarm.generation) rfl
      refine Acts.of_eq (Acts.of_eq_left hfire ?_ ?_) ?_ ?_ <;> rfl
    · exact .quiet rfl fun _ h => h
    · exact .quiet rfl fun _ h => h

theorem acts_wakeAlarms (s : Session) (reading : Nat) (ids : List Nat) :
    Acts s [] (s.wakeAlarms reading ids).2.ended (s.wakeAlarms reading ids).1 := by
  induction ids generalizing s with
  | nil => exact .refl s
  | cons i rest ih => exact (acts_wakeAlarm s reading i).trans (ih (s.wakeAlarm reading i).1)

theorem acts_elapse (s : Session) : Acts s [] s.elapse.2.ended s.elapse.1 :=
  Acts.of_eq_left (acts_wakeAlarms { s with now := s.now + 1 } _ _) rfl rfl

theorem acts_startDeadline (s : Session) (b : Nat) (lead : Option Lead) :
    Acts s [] (s.startDeadline b lead).2.1.ended (s.startDeadline b lead).1 := by
  have hfirst := acts_onBuffer s b
    (a := .startDeadline s.now (lead.map (Lead.instant s.now))) rfl
  rw [startDeadline]
  dsimp only
  split
  · split
    · exact hfirst
    · split
      · exact hfirst
      · exact hfirst.of_eq rfl rfl
  · exact hfirst

theorem acts_launch (s : Session) (a : Arming) (reading : Nat) :
    Acts s [] (s.launch a reading).2.ended (s.launch a reading).1 := by
  let alarm : Alarm :=
    { timer := { deadline := a.deadline }, buffer := a.buffer, generation := a.generation }
  have hwake := acts_wakeAlarm { s with alarms := s.alarms ++ [alarm] } reading s.alarms.length
  have hinstall := acts_onBuffer
    (({ s with alarms := s.alarms ++ [alarm] } : Session).wakeAlarm reading s.alarms.length).1
    a.buffer (a := .install a.generation s.alarms.length) rfl
  refine Acts.trans (Acts.of_eq_left hwake ?_ ?_) hinstall <;> rfl

theorem acts_finishDeadline (s : Session) (a : Arming) (launch : Launch) :
    Acts s [] (s.finishDeadline a launch).2.ended (s.finishDeadline a launch).1 := by
  cases launch with
  | prompt => exact (acts_launch s a s.now).of_eq rfl rfl
  | overtaken => exact (acts_launch s a (s.now + 1)).of_eq rfl rfl
  | refused =>
    exact (acts_onBuffer s a.buffer (a := .startRefused a.generation) rfl).of_eq rfl rfl

end Session

/-! ## Operations -/

namespace Session

/-- Some way leads from the one session to the other. -/
def Leads (s t : Session) : Prop := ∃ begun ended, Acts s begun ended t

theorem Acts.leads {s t : Session} {begun : List Nat} {ended : List (Nat × Outcome)}
    (h : Acts s begun ended t) : s.Leads t := ⟨begun, ended, h⟩

theorem Leads.refl (s : Session) : s.Leads s := (Acts.refl s).leads

theorem Leads.trans {s t u : Session} (h₁ : s.Leads t) (h₂ : t.Leads u) : s.Leads u := by
  obtain ⟨begun₁, ended₁, h₁⟩ := h₁
  obtain ⟨begun₂, ended₂, h₂⟩ := h₂
  exact (h₁.trans h₂).leads

theorem leads_read (s : Session) (b : Nat) (call : Call) : s.Leads (s.read b call).1 := by
  cases h : s.buffers[b]? with
  | none =>
    have hsame : (s.read b call).1 = { s with started := s.started + 1 } := by
      simp only [read, onBuffer, h]
    rw [hsame]
    refine (Acts.of_eq (.refl s) ?_ ?_).leads <;> rfl
  | some buffer => exact (acts_read h call).leads

theorem leads_withHandle {s : Session} {handle : Nat} {f : Nat → Session × Report}
    (hf : ∀ b, s.bufferOf? handle = some b → s.Leads (f b).1) :
    s.Leads (s.withHandle handle f).1 := by
  rw [withHandle]
  split
  · exact .refl s
  · rename_i b hb
    exact hf b hb

end Session

mutual

-- on the tree of operations: those inside a change of a deadline are a list of their own

/-- An operation, with all that runs inside it. -/
theorem Op.leads_run (op : Op) (s : Session) : s.Leads (op.run s).1 := by
  match op with
  | .create handle config => exact (s.acts_create config).leads
  | .share handle =>
    refine Session.leads_withHandle fun b hb => ?_
    exact (Session.acts_share (Session.mem_handles_of_bufferOf? hb)).leads
  | .drop handle => exact Session.leads_withHandle fun b _ => (s.acts_drop handle b).leads
  | .write handle chunk => exact Session.leads_withHandle fun b _ => (s.acts_write b chunk).leads
  | .close handle => exact Session.leads_withHandle fun b _ => (s.acts_close b).leads
  | .inspect handle => exact Session.leads_withHandle fun b _ => .refl s
  | .read handle call => exact Session.leads_withHandle fun b _ => s.leads_read b call
  | .deadline handle lead during launch =>
    unfold Op.run
    refine Session.leads_withHandle fun b _ => ?_
    have hfirst := (s.acts_startDeadline b lead).leads
    dsimp only
    split
    · exact hfirst
    · exact hfirst
    · -- what runs inside starts where the first half ended, and the second half follows
      rename_i a _
      have hinside := Op.leads_runAll during (s.startDeadline b lead).1
      have hsecond := (Session.acts_finishDeadline
        (Op.runAll during (s.startDeadline b lead).1).1 a launch).leads
      exact ((hfirst.trans hinside).trans hsecond).trans (Session.acts_retire _ b).leads
  | .elapse handle => exact s.acts_elapse.leads

/-- Operations one after the other. -/
theorem Op.leads_runAll (ops : List Op) (s : Session) : s.Leads (Op.runAll ops s).1 := by
  match ops with
  | [] => exact .refl s
  | op :: rest => exact (Op.leads_run op s).trans (Op.leads_runAll rest (op.run s).1)

end

/-! ## What sessions keep -/

namespace Session

/-- What new buffers satisfy and actions keep, the buffers of a session satisfy for as
    long as it runs. -/
theorem Leads.invariant {P : Buffer → Prop} (hnew : ∀ c, P (.ofConfig c))
    (hact : ∀ b a, P b → P (b.act a).1) {s t : Session} (h : s.Leads t)
    (hs : ∀ buffer ∈ s.buffers, P buffer) : ∀ buffer ∈ t.buffers, P buffer := by
  obtain ⟨begun, ended, h⟩ := h
  induction h with
  | quiet hbuffers =>
    rw [hbuffers]
    exact hs
  | @act s t b buffer a hbuffer hbuffers =>
    rw [hbuffers]
    intro x hx
    rcases List.mem_or_eq_of_mem_set hx with hx | rfl
    · exact hs x hx
    · exact hact buffer a (hs buffer (List.mem_of_getElem? hbuffer))
  | create c hbuffers =>
    rw [hbuffers]
    intro x hx
    rcases List.mem_append.mp hx with hx | hx
    · exact hs x hx
    · rw [List.mem_singleton.mp hx]
      exact hnew c
  | trans _ _ ih₁ ih₂ => exact ih₂ (ih₁ hs)

/-- A buffer keeps its place and the name of its timer threads. -/
theorem Leads.threadName_eq {s t : Session} (h : s.Leads t) {b : Nat} {buffer : Buffer}
    (hbuffer : s.buffers[b]? = some buffer) :
    ∃ buffer', t.buffers[b]? = some buffer' ∧ buffer'.threadName = buffer.threadName := by
  obtain ⟨begun, ended, h⟩ := h
  induction h generalizing buffer with
  | quiet hbuffers =>
    rw [hbuffers]
    exact ⟨buffer, hbuffer, rfl⟩
  | @act s t b' old a hold hbuffers =>
    rw [hbuffers]
    by_cases hb : b' = b
    · subst hb
      rw [hold, Option.some.injEq] at hbuffer
      subst hbuffer
      have hlt : b' < s.buffers.length := (List.getElem?_eq_some_iff.mp hold).1
      exact ⟨_, List.getElem?_set_self hlt, old.threadName_act a⟩
    · rw [List.getElem?_set_ne hb]
      exact ⟨buffer, hbuffer, rfl⟩
  | create c hbuffers =>
    rw [hbuffers, List.getElem?_append_left (List.getElem?_eq_some_iff.mp hbuffer).1]
    exact ⟨buffer, hbuffer, rfl⟩
  | trans _ _ ih₁ ih₂ =>
    obtain ⟨mid, hmid, hname₁⟩ := ih₁ hbuffer
    obtain ⟨last, hlast, hname₂⟩ := ih₂ hmid
    exact ⟨last, hlast, hname₂.trans hname₁⟩

/-- Every handle refers to a buffer that is there. -/
def HandlesValid (s : Session) : Prop := ∀ b, some b ∈ s.handles → b < s.buffers.length

theorem Leads.handlesValid {s t : Session} (h : s.Leads t) (hs : s.HandlesValid) :
    t.HandlesValid := by
  obtain ⟨begun, ended, h⟩ := h
  induction h with
  | quiet hbuffers hhandles =>
    intro b hb
    rw [hbuffers]
    exact hs b (hhandles b hb)
  | act a hbuffer hbuffers hhandles =>
    intro b hb
    rw [hbuffers, List.length_set]
    rw [hhandles] at hb
    exact hs b hb
  | create c hbuffers hhandles =>
    intro b hb
    rw [hhandles] at hb
    rw [hbuffers, List.length_append]
    rcases List.mem_append.mp hb with hb | hb
    · have hlt := hs b hb
      omega
    · obtain rfl : b = _ := by simpa using hb
      simp
  | trans _ _ ih₁ ih₂ => exact ih₂ (ih₁ hs)

end Session

end StreamBuffer
