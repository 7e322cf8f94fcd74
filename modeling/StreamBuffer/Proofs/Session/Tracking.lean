/-
  StreamBuffer.Proofs.Session.Tracking

  Each buffer of a session is what its own history makes of it.

  For as long as something holds on to a buffer, its view is what what was done to it and the
  passing of time make of it alone; and once nothing does, nobody waits there and no change of
  its deadline is in flight, so that no call can end any more (`Session.Tracks`). The calls
  that end in a session are those that end in some buffer (`Follows`).

  One lemma for each transition; operations with all that runs inside them, and boundaries
  between steps, by composition (`Op.follows_run`, `Past.follows`).
-/
import StreamBuffer.Proofs.Session.Regular
import StreamBuffer.Proofs.Session.Elapsing
import StreamBuffer.Proofs.Session.Orphans

namespace StreamBuffer

/-! ## Many views at once -/

/-- What steps make of the views of all buffers. -/
def View.after (V : Nat → View) (steps : List Step) (b : Nat) : View :=
  ((V b).follow (project b steps)).1

/-- A call that ends in one of the views with the outcome. -/
def View.EndsIn (V : Nat → View) (steps : List Step) (i : Nat) (o : Outcome) : Prop :=
  ∃ b, (i, o) ∈ ((V b).follow (project b steps)).2

theorem View.after_append (V : Nat → View) (first second : List Step) :
    View.after V (first ++ second) = View.after (View.after V first) second := by
  funext b
  rw [after, project_append, follow_append]
  rfl

theorem View.endsIn_append {V : Nat → View} {first second : List Step} {i : Nat} {o : Outcome} :
    View.EndsIn V (first ++ second) i o
      ↔ View.EndsIn V first i o ∨ View.EndsIn (View.after V first) second i o := by
  simp only [EndsIn, project_append, follow_append, List.mem_append, exists_or]
  rfl

theorem project_on_self (b : Nat) (d : Deed) : project b [.on b d] = [some d] := by
  simp [project, Step.for?]

theorem project_on_ne {b c : Nat} (hc : c ≠ b) (d : Deed) : project c [.on b d] = [] := by
  simp [project, Step.for?, hc.symm]

/-! ## Buffers without readers -/

namespace View

variable {v : View}

theorem armings_elapse (h : v.armings = []) : v.elapse.1.armings = [] := by
  have hage : v.age.armings = [] := by rw [age, h]; rfl
  rw [elapse]
  split
  · exact (v.age.disarm.armings_on _).trans hage
  · exact hage

/-- Where nobody waits, time ends no call. -/
theorem elapse_of_waitingIds (h : v.waitingIds = []) :
    v.elapse.2 = [] ∧ v.elapse.1.waitingIds = [] := by
  rw [elapse]
  split
  · obtain ⟨buffer, armed, armings⟩ := v
    cases buffer with
    | none => exact ⟨rfl, rfl⟩
    | some b =>
      have hnobody : b.waiting = [] := List.map_eq_nil_iff.mp h
      obtain ⟨threadName, state, waiting⟩ := b
      obtain rfl : waiting = [] := hnobody
      exact ⟨rfl, rfl⟩
  · exact ⟨rfl, h⟩

end View

namespace Session

/-! ## Sessions and views -/

theorem waitingIds_view (s : Session) (b : Nat) : (s.view b).waitingIds = s.waitingIds b := by
  rw [View.waitingIds, waitingIds, view, Option.map_map]
  rfl

/-- The summary shows in the view. -/
theorem Tended.summary?_eq {s : Session} (h : s.Tended none) (b : Nat) :
    s.summary? b = (s.view b).summary? := by
  rw [summary?, View.summary?, view, Option.map_map]
  cases hb : s.buffers[b]? with
  | none => rfl
  | some buffer =>
    have htimer : s.timerOf? b = buffer.state.timer := by rw [timerOf?, hb]; rfl
    have harmed :
        ((s.armedOf? b).map (Instant.ahead s.now)).isSome = buffer.state.timer.isSome := by
      rw [Option.isSome_map, armedOf?, htimer]
      cases hi : buffer.state.timer with
      | none => rfl
      | some i =>
        obtain ⟨a, ha, -⟩ := h.installed hb hi (by simp)
        rw [Option.bind_some, deadlineOf?, ha]
        rfl
    simp only [Option.map_some, Function.comp_apply, harmed]
    rfl

/-- What holds on to a buffer: a handle, or what its view shows. -/
theorem isAlive_eq_view (s : Session) (b : Nat) :
    s.isAlive b = (s.handles.contains (some b) || !(s.view b).armings.isEmpty
      || !(s.view b).waitingIds.isEmpty) := by
  have harmings : s.armings.any (fun a => a.buffer == b) = !(s.view b).armings.isEmpty := by
    rw [view, List.isEmpty_map, armingsOf]
    induction s.armings with
    | nil => rfl
    | cons a rest ih => cases h : a.buffer == b <;> simp_all
  rw [isAlive, harmings, waitingIds_view]

theorem isAlive_false_iff {s : Session} {b : Nat} :
    s.isAlive b = false
      ↔ some b ∉ s.handles ∧ (s.view b).armings = [] ∧ (s.view b).waitingIds = [] := by
  rw [isAlive_eq_view]
  simp [and_assoc]

theorem handles_retire (s : Session) (b : Nat) : (s.retire b).handles = s.handles := by
  rw [retire]
  split
  · rfl
  · exact s.handles_onBuffer b _

theorem handles_elapse (s : Session) : s.elapse.1.handles = s.handles := by
  obtain ⟨buffers, alarms, records, hsame⟩ :=
    wakeAlarms_eq { s with now := s.now + 1 } (s.now + 1)
      (List.range s.alarms.length)
  rw [elapse, hsame]

theorem handles_startDeadline (s : Session) (b : Nat) (lead : Option Lead) :
    (s.startDeadline b lead).1.handles = s.handles := by
  have hcases := s.startDeadline_cases b lead
  dsimp only at hcases
  rcases hcases with ⟨hfirst, -⟩ | ⟨a, buffer, -, -, -, hfirst, -⟩
  · rw [hfirst, handles_onBuffer]
  · rw [hfirst]
    exact s.handles_onBuffer b _

theorem handles_finishDeadline (s : Session) (a : Arming) (launch : Launch) :
    (s.finishDeadline a launch).1.handles = s.handles := by
  have hlaunch : ∀ reading, (s.launch a reading).1.handles = s.handles := by
    intro reading
    obtain ⟨buffers, alarms, records, hsame⟩ :=
      (s.startThread a).wakeAlarm_eq reading s.alarms.length
    have hwoken : ((s.startThread a).wakeAlarm reading s.alarms.length).1.handles = s.handles := by
      rw [hsame]
      rfl
    exact (handles_onBuffer _ _ _).trans hwoken
  cases launch with
  | prompt => exact hlaunch s.now
  | overtaken => exact hlaunch (s.now + 1)
  | refused => exact s.handles_onBuffer a.buffer _

/-- To retire a buffer, nothing comes to hold on to any. -/
theorem isAlive_retire (s : Session) (b c : Nat) : (s.retire b).isAlive c = s.isAlive c := by
  have hview : ((s.retire b).view c).armings = (s.view c).armings
      ∧ ((s.retire b).view c).waitingIds = (s.view c).waitingIds := by
    rw [view_retire]
    split <;> exact ⟨rfl, rfl⟩
  rw [isAlive_eq_view, isAlive_eq_view, handles_retire, hview.1, hview.2]

/-- While something holds on to a buffer, its view is the given one; and once nothing does, it
    has no changes in flight and nobody waits. -/
structure Tracks (s : Session) (V : Nat → View) : Prop where
  alive : ∀ b, s.isAlive b = true → s.view b = V b
  dead : ∀ b, s.isAlive b = false → (V b).armings = [] ∧ (V b).waitingIds = []

/-- The view has what the session shows of it, alive or not, if the session shows it. -/
theorem Tracks.of_view_eq {s : Session} {V : Nat → View} (h : ∀ b, s.view b = V b) :
    s.Tracks V := by
  refine ⟨fun b _ => h b, fun b hdead => ?_⟩
  rw [← h b]
  exact (isAlive_false_iff.mp hdead).2

/-- Views that were tracked at `s` are tracked at `t` after the steps, and `told` are the calls
    that end in them. -/
def Follows (s : Session) (steps : List Step) (told : List (Nat × Outcome)) (t : Session) : Prop :=
  ∀ V, s.Tracks V →
    t.Tracks (View.after V steps) ∧ ∀ i o, (i, o) ∈ told ↔ View.EndsIn V steps i o

namespace Follows

variable {s t u : Session} {b : Nat} {d : Deed} {ended : List (Nat × Outcome)}

theorem trans {first second : List Step} {told₁ told₂ : List (Nat × Outcome)}
    (h₁ : s.Follows first told₁ t) (h₂ : t.Follows second told₂ u) :
    s.Follows (first ++ second) (told₁ ++ told₂) u := by
  intro V hV
  obtain ⟨hmid, htold₁⟩ := h₁ V hV
  obtain ⟨hlast, htold₂⟩ := h₂ _ hmid
  refine ⟨?_, fun i o => ?_⟩
  · rw [View.after_append]
    exact hlast
  · rw [View.endsIn_append, List.mem_append, htold₁, htold₂]

/-- Nothing is done to buffers, but something that held on to one may be gone. -/
theorem of_view_eq (hview : ∀ b, s.isAlive b = true → t.view b = s.view b)
    (halive : ∀ b, t.isAlive b = true → s.isAlive b = true) : s.Follows [] [] t := by
  intro V hV
  refine ⟨⟨fun b hb => ?_, fun b hb => ?_⟩, fun i o => ?_⟩
  · exact (hview b (halive b hb)).trans (hV.alive b (halive b hb))
  · cases hs : s.isAlive b with
    | false => exact hV.dead b hs
    | true =>
      have hsame := (hview b hs).trans (hV.alive b hs)
      show (V b).armings = [] ∧ (V b).waitingIds = []
      rw [← hsame]
      exact (isAlive_false_iff.mp hb).2
  · exact iff_of_false List.not_mem_nil fun ⟨_, hmem⟩ => List.not_mem_nil hmem

theorem refl (s : Session) : s.Follows [] [] s := of_view_eq (fun _ _ => rfl) fun _ h => h

/-- A deed on one buffer, to which something held on if it was there. -/
theorem of_does (hdoes : s.Does b d t ended)
    (hhere : ∀ V : Nat → View, s.Tracks V → (s.view b).act d = (V b).act d)
    (halive : ∀ c ≠ b, t.isAlive c = s.isAlive c) : s.Follows [.on b d] ended t := by
  intro V hV
  have hact : (t.view b, ended) = (V b).act d := hdoes.here.trans (hhere V hV)
  have hself : View.after V [.on b d] b = t.view b := by
    rw [View.after, project_on_self]
    exact (congrArg Prod.fst hact).symm
  have hother : ∀ c ≠ b, View.after V [.on b d] c = V c := by
    intro c hc
    rw [View.after, project_on_ne hc]
    rfl
  refine ⟨⟨fun c hc => ?_, fun c hc => ?_⟩, fun i o => ?_⟩
  · by_cases hcb : c = b
    · rw [hcb, hself]
    · rw [hother c hcb, hdoes.elsewhere c hcb]
      exact hV.alive c ((halive c hcb).symm.trans hc)
  · by_cases hcb : c = b
    · rw [hcb, hself]
      rw [hcb] at hc
      exact (isAlive_false_iff.mp hc).2
    · rw [hother c hcb]
      exact hV.dead c ((halive c hcb).symm.trans hc)
  · constructor
    · intro hmem
      refine ⟨b, ?_⟩
      rw [project_on_self]
      show (i, o) ∈ ((V b).act d).2 ++ []
      rw [← hact, List.append_nil]
      exact hmem
    · rintro ⟨c, hmem⟩
      by_cases hcb : c = b
      · subst hcb
        rw [project_on_self] at hmem
        have hmem : (i, o) ∈ ((V c).act d).2 ++ [] := hmem
        rw [← hact, List.append_nil] at hmem
        exact hmem
      · rw [project_on_ne hcb] at hmem
        cases hmem

/-- A deed through a handle, or of a change in flight. -/
theorem of_does_alive (hdoes : s.Does b d t ended) (hb : s.isAlive b = true)
    (hhandles : t.handles = s.handles) : s.Follows [.on b d] ended t := by
  refine of_does hdoes (fun V hV => by rw [hV.alive b hb]) fun c hc => ?_
  rw [isAlive_eq_view, isAlive_eq_view, hhandles, hdoes.elsewhere c hc]

theorem isAlive_of_handle (hb : some b ∈ s.handles) : s.isAlive b = true := by
  rw [isAlive, List.contains_iff_mem.mpr hb, Bool.true_or, Bool.true_or]

/-- A new buffer is made as it is, whatever was at its place. -/
theorem create (h : s.Regular) (c : Config) :
    s.Follows [.on s.buffers.length (.create c)] [] (s.create c).1 := by
  refine of_does (does_create h.armings c) (fun V _ => rfl) fun b hb => ?_
  have hhandles : (s.create c).1.handles.contains (some b) = s.handles.contains (some b) := by
    show (s.handles ++ [some s.buffers.length]).contains (some b) = _
    simp [hb]
  rw [isAlive_eq_view, isAlive_eq_view, hhandles, (does_create h.armings c).elsewhere b hb]

theorem share (hb : some b ∈ s.handles) : s.Follows [] [] (s.share b).1 := by
  refine of_view_eq (fun _ _ => rfl) fun c hc => ?_
  rw [isAlive_eq_view] at hc ⊢
  have hhandles : (s.share b).1.handles.contains (some c) = s.handles.contains (some c) := by
    show (s.handles ++ [some b]).contains (some c) = _
    by_cases hcb : c = b
    · rw [hcb, List.contains_iff_mem.mpr hb]
      simp
    · simp [hcb]
  rw [hhandles] at hc
  exact hc

/-- To retire a buffer does nothing to one that something holds on to. -/
theorem retire (s : Session) (b : Nat) : s.Follows [] [] (s.retire b) := by
  refine of_view_eq (fun c hc => ?_) fun c hc => ?_
  · rw [view_retire, if_neg]
    rintro ⟨rfl, hdead⟩
    rw [hc] at hdead
    cases hdead
  · rw [isAlive_retire] at hc
    exact hc

theorem drop (s : Session) (i b : Nat) : s.Follows [] [] (s.drop i b) := by
  have hdropped : s.Follows [] [] { s with handles := s.handles.set i none } := by
    refine of_view_eq (fun _ _ => rfl) fun c hc => ?_
    rw [isAlive_iff] at hc ⊢
    refine hc.imp_left fun hmem => ?_
    rcases List.mem_or_eq_of_mem_set hmem with hmem | hnone
    · exact hmem
    · cases hnone
  exact hdropped.trans (retire _ b)

theorem write (hb : some b ∈ s.handles) (chunk : Bytes) :
    s.Follows [.on b (.write chunk)] (s.write b chunk).2.ended (s.write b chunk).1 :=
  of_does_alive (s.does_write b chunk) (isAlive_of_handle hb) (s.handles_onBuffer b _)

theorem close (hb : some b ∈ s.handles) :
    s.Follows [.on b .close] (s.close b).2.ended (s.close b).1 :=
  of_does_alive (s.does_close b) (isAlive_of_handle hb) (s.handles_onBuffer b _)

theorem read (hb : some b ∈ s.handles) (call : Call) :
    s.Follows [.on b (.read s.started call)] (s.read b call).2.ended (s.read b call).1 :=
  of_does_alive (s.does_read b call) (isAlive_of_handle hb) (handles_onBuffer _ b _)

theorem startDeadline (hb : some b ∈ s.handles) (lead : Option Lead) :
    s.Follows [.on b (.startDeadline lead)] (s.startDeadline b lead).2.1.ended
      (s.startDeadline b lead).1 :=
  of_does_alive (s.does_startDeadline b lead) (isAlive_of_handle hb)
    (s.handles_startDeadline b lead)

theorem finishDeadline (h : s.Regular) {a : Arming} {rest : List Arming}
    (harmings : s.armings = a :: rest) (launch : Launch) :
    s.Follows [.on a.buffer (.finishDeadline launch)] (s.finishDeadline a launch).2.ended
      (s.finishDeadline a launch).1 := by
  have halive : s.isAlive a.buffer = true := by
    rw [isAlive_iff, harmings]
    exact Or.inr (Or.inl ⟨a, List.mem_cons_self, rfl⟩)
  exact of_does_alive (does_finishDeadline h.tended harmings launch) halive
    (s.handles_finishDeadline a launch)

/-- Time passes for every buffer, also for those that nothing holds on to. -/
theorem elapse (h : s.Regular) : s.Follows [.elapse] s.elapse.2.ended s.elapse.1 := by
  have hview : ∀ b, s.elapse.1.view b = (s.view b).elapse.1 := fun b =>
    view_elapseIn h.tended (List.Perm.refl _) b
  have hhandles := s.handles_elapse
  intro V hV
  have hafter : ∀ b, View.after V [.elapse] b = (V b).elapse.1 := fun _ => rfl
  have hdead : ∀ b, s.isAlive b = false → s.elapse.1.isAlive b = false := by
    intro b hb
    obtain ⟨hnone, harmings, hwaiting⟩ := isAlive_false_iff.mp hb
    rw [isAlive_false_iff, hhandles, hview]
    exact ⟨hnone, View.armings_elapse harmings, (View.elapse_of_waitingIds hwaiting).2⟩
  refine ⟨⟨fun b hb => ?_, fun b hb => ?_⟩, fun i o => ?_⟩
  · cases hs : s.isAlive b with
    | false => cases (hdead b hs).symm.trans hb
    | true => rw [hafter, hview, hV.alive b hs]
  · rw [hafter]
    cases hs : s.isAlive b with
    | false =>
      obtain ⟨harmings, hwaiting⟩ := hV.dead b hs
      exact ⟨View.armings_elapse harmings, (View.elapse_of_waitingIds hwaiting).2⟩
    | true =>
      rw [← hV.alive b hs, ← hview]
      exact (isAlive_false_iff.mp hb).2
  · -- in a buffer that nothing holds on to no call ends, whichever view is taken
    have hsame : ∀ b, (s.view b).elapse.2 = (V b).elapse.2 := by
      intro b
      cases hs : s.isAlive b with
      | false =>
        rw [(View.elapse_of_waitingIds (isAlive_false_iff.mp hs).2.2).1,
          (View.elapse_of_waitingIds (hV.dead b hs).2).1]
      | true => rw [hV.alive b hs]
    have hmem : (i, o) ∈ s.elapse.2.ended ↔ ∃ b, (i, o) ∈ (s.view b).elapse.2 :=
      mem_ended_elapseIn h.tended (List.Perm.refl _) i o
    rw [hmem]
    refine exists_congr fun b => ?_
    have hfollow : ((V b).follow (project b [.elapse])).2 = (V b).elapse.2 ++ [] := rfl
    rw [hfollow, List.append_nil, hsame]

end Follows

end Session

/-! ## What the reports tell -/

/-- By the entries of reports the call ended with the outcome. The first call that they answer
    has the number `k`. -/
def tells (k : Nat) (entries : List Report.Entry) (i : Nat) (o : Outcome) : Prop :=
  (∃ j, i = k + j ∧ (callsOf entries)[j]? = some (.ended o)) ∨ (i, o) ∈ wokenBy entries

theorem tells_append {k i : Nat} {first second : List Report.Entry} {o : Outcome} :
    tells k (first ++ second) i o
      ↔ tells k first i o ∨ tells (k + (callsOf first).length) second i o := by
  simp only [tells, callsOf_append, wokenBy_append, List.mem_append]
  have hcalls : (∃ j, i = k + j ∧ (callsOf first ++ callsOf second)[j]? = some (.ended o))
      ↔ (∃ j, i = k + j ∧ (callsOf first)[j]? = some (.ended o))
        ∨ ∃ j, i = k + (callsOf first).length + j ∧ (callsOf second)[j]? = some (.ended o) := by
    constructor
    · rintro ⟨j, hi, hj⟩
      by_cases hlt : j < (callsOf first).length
      · rw [List.getElem?_append_left hlt] at hj
        exact Or.inl ⟨j, hi, hj⟩
      · rw [List.getElem?_append_right (Nat.le_of_not_lt hlt)] at hj
        exact Or.inr ⟨j - (callsOf first).length, by omega, hj⟩
    · rintro (⟨j, hi, hj⟩ | ⟨j, hi, hj⟩)
      · refine ⟨j, hi, ?_⟩
        rw [List.getElem?_append_left (List.getElem?_eq_some_iff.mp hj).1]
        exact hj
      · refine ⟨(callsOf first).length + j, by omega, ?_⟩
        rw [List.getElem?_append_right (by omega), Nat.add_sub_cancel_left]
        exact hj
  rw [hcalls, or_or_or_comm]

namespace Session

/-- From `s` to `t` the steps are taken, and the entries tell which calls end on the way. -/
def Retells (s : Session) (steps : List Step) (entries : List Report.Entry) (t : Session) : Prop :=
  t.started = s.started + (callsOf entries).length
    ∧ ∃ told, s.Follows steps told t ∧ ∀ i o, (i, o) ∈ told ↔ tells s.started entries i o

namespace Retells

variable {s t u : Session} {steps : List Step} {told : List (Nat × Outcome)}

theorem trans {first second : List Step} {entries₁ entries₂ : List Report.Entry}
    (h₁ : s.Retells first entries₁ t) (h₂ : t.Retells second entries₂ u) :
    s.Retells (first ++ second) (entries₁ ++ entries₂) u := by
  obtain ⟨hstarted₁, told₁, hfollows₁, htold₁⟩ := h₁
  obtain ⟨hstarted₂, told₂, hfollows₂, htold₂⟩ := h₂
  refine ⟨?_, told₁ ++ told₂, hfollows₁.trans hfollows₂, fun i o => ?_⟩
  · rw [hstarted₂, hstarted₁, callsOf_append, List.length_append, Nat.add_assoc]
  · rw [List.mem_append, htold₁, htold₂, tells_append, hstarted₁]

theorem refl (s : Session) : s.Retells [] [] s := by
  refine ⟨rfl, [], .refl s, fun i o => iff_of_false List.not_mem_nil ?_⟩
  rintro (⟨j, -, hj⟩ | hmem)
  · cases hj
  · cases hmem

/-- One step that begins no call, with an entry of its own. -/
theorem entry {answer : Answer} {woken : List (Nat × Outcome)} (h : s.Follows steps told t)
    (hstarted : t.started = s.started) (hanswer : answer.calls = [])
    (hwoken : ∀ i o, (i, o) ∈ woken ↔ (i, o) ∈ told) : s.Retells steps [⟨answer, woken⟩] t := by
  have hcalls : callsOf [⟨answer, woken⟩] = [] := (callsOf_singleton _).trans hanswer
  refine ⟨?_, told, h, fun i o => ?_⟩
  · rw [hcalls, hstarted]
    rfl
  · rw [tells, hcalls, wokenBy_singleton, hwoken]
    refine ⟨Or.inr, ?_⟩
    rintro (⟨j, -, hj⟩ | hmem)
    · cases hj
    · exact hmem

/-- The report on a step with nothing inside it. -/
theorem report {answer : Answer} {e : Effects} (h : s.Follows steps e.ended t)
    (hstarted : t.started = s.started) (hanswer : answer.calls = []) (u : Session)
    (b : Option Nat) : s.Retells steps (u.report b answer e none).entries t :=
  entry h hstarted hanswer fun _ _ => List.mem_mergeSort

/-- A step through a handle, whether a buffer goes by it or not. -/
theorem withHandle {h : Nat} {f : Nat → Session × Report} {g : Nat → List Step}
    (hf : ∀ b, s.bufferOf? h = some b → s.Retells (g b) (f b).2.entries (f b).1) :
    s.Retells (s.trailVia h g) (s.withHandle h f).2.entries (s.withHandle h f).1 := by
  rw [Session.withHandle, trailVia]
  cases hb : s.bufferOf? h with
  | none => exact refl s
  | some b => exact hf b hb

/-- A step through a handle that does nothing to the buffer. -/
theorem withHandle_nil {h : Nat} {f : Nat → Session × Report}
    (hf : ∀ b, s.bufferOf? h = some b → s.Retells [] (f b).2.entries (f b).1) :
    s.Retells [] (s.withHandle h f).2.entries (s.withHandle h f).1 := by
  have hnone : s.trailVia h (fun _ => []) = [] := by
    rw [trailVia]
    split <;> rfl
  have hboth := withHandle (g := fun _ => []) hf
  rw [hnone] at hboth
  exact hboth

/-- A call that begins is answered with its outcome, or waits. -/
theorem read (h : s.Regular) {handle b : Nat} (hb : s.bufferOf? handle = some b) (call : Call)
    (u : Session) :
    s.Retells [.on b (.read s.started call)]
      (u.report (some b)
        (match (s.read b call).2.ended with
          | [] => Answer.blocked s.started
          | (_, outcome) :: _ => .ended outcome)
        { (s.read b call).2 with ended := [] } none).entries (s.read b call).1 := by
  obtain ⟨buffer, hbuffer⟩ := h.exists_buffer hb
  have hfollows := Follows.read (mem_handles_of_bufferOf? hb) call
  have hentries : ∀ answer, (u.report (some b) answer
      { (s.read b call).2 with ended := [] } none).entries = [⟨answer, []⟩] := by
    intro answer
    show [Report.Entry.mk answer (([] : List (Nat × Outcome)).mergeSort _)] = _
    rw [List.mergeSort_nil]
  rw [hentries]
  rcases ended_read hbuffer call with hended | ⟨o, hended⟩
  · rw [hended] at hfollows ⊢
    refine ⟨started_read s b call, [], hfollows, fun i o => iff_of_false List.not_mem_nil ?_⟩
    rintro (⟨j, -, hj⟩ | hmem)
    · have hsingle : ([Answer.blocked s.started] : List Answer)[j]? = some (.ended o) := hj
      rw [List.getElem?_singleton] at hsingle
      split at hsingle <;> cases hsingle
    · cases hmem
  · rw [hended] at hfollows ⊢
    refine ⟨started_read s b call, _, hfollows, fun i o' => ?_⟩
    constructor
    · intro hmem
      obtain ⟨rfl, rfl⟩ := Prod.mk.inj (List.mem_singleton.mp hmem)
      exact Or.inl ⟨0, rfl, rfl⟩
    · rintro (⟨j, hi, hj⟩ | hmem)
      · have hsingle : ([Answer.ended o] : List Answer)[j]? = some (.ended o') := hj
        rw [List.getElem?_singleton] at hsingle
        split at hsingle
        · rename_i hzero
          cases hsingle
          rw [hi, hzero]
          exact List.mem_singleton_self _
        · cases hsingle
      · cases hmem

/-- The report on a change with steps inside it tells of both its halves after those. -/
theorem deadline {first inside t : Session} {opening during closing : List Step} {e₁ e₂ : Effects}
    {reports : List Report} {answer : Answer} (hanswer : answer.calls = [])
    (h₁ : s.Follows opening e₁.ended first) (hstarted₁ : first.started = s.started)
    (h₂ : first.Retells during (Report.entriesAll reports) inside)
    (h₃ : inside.Follows closing e₂.ended t) (hstarted₃ : t.started = inside.started)
    (u : Session) (b : Option Nat) :
    s.Retells (opening ++ (during ++ closing))
      (u.report b answer (e₁ ++ e₂) (some reports)).entries t := by
  obtain ⟨hstarted₂, told, hfollows, htold⟩ := h₂
  let woken := (e₁ ++ e₂).ended.mergeSort fun x y => x.1 ≤ y.1
  show s.Retells _ (Report.entriesAll reports ++ [⟨answer, woken⟩]) t
  have hcalls : callsOf [⟨answer, woken⟩] = [] := (callsOf_singleton _).trans hanswer
  refine ⟨?_, e₁.ended ++ (told ++ e₂.ended), h₁.trans (hfollows.trans h₃), fun i o => ?_⟩
  · rw [hstarted₃, hstarted₂, hstarted₁, callsOf_append, hcalls, List.append_nil]
  · have hwoken : (i, o) ∈ woken ↔ (i, o) ∈ e₁.ended ∨ (i, o) ∈ e₂.ended :=
      List.mem_mergeSort.trans List.mem_append
    have hlast : tells (s.started + (callsOf (Report.entriesAll reports)).length)
        [⟨answer, woken⟩] i o ↔ (i, o) ∈ woken := by
      rw [tells, hcalls, wokenBy_singleton]
      refine or_iff_right ?_
      rintro ⟨j, -, hj⟩
      cases hj
    rw [tells_append, hlast, hwoken, List.mem_append, List.mem_append, htold, hstarted₁]
    exact or_left_comm

end Retells

end Session

mutual

-- on the tree of operations: those inside a change of a deadline are a list of their own

/-- An operation, with all that runs inside it. -/
theorem Op.retells_run (op : Op) {s : Session} (h : s.Regular) :
    s.Retells (op.trail s) (op.run s).2.entries (op.run s).1 := by
  match op with
  | .create handle config => exact .report (e := {}) (.create h config) rfl rfl _ _
  | .share handle =>
    refine Session.Retells.withHandle_nil fun b hb => ?_
    exact .report (e := {}) (.share (Session.mem_handles_of_bufferOf? hb)) rfl rfl _ _
  | .drop handle =>
    refine Session.Retells.withHandle_nil fun b _ => ?_
    exact .entry (.drop s handle b) (Session.started_retire _ b) rfl fun _ _ => Iff.rfl
  | .write handle chunk =>
    refine Session.Retells.withHandle fun b hb => ?_
    exact .report (.write (Session.mem_handles_of_bufferOf? hb) chunk) (s.started_onBuffer b _) rfl
      _ _
  | .close handle =>
    refine Session.Retells.withHandle fun b hb => ?_
    exact .report (.close (Session.mem_handles_of_bufferOf? hb)) (s.started_onBuffer b _) rfl _ _
  | .inspect handle =>
    refine Session.Retells.withHandle_nil fun b _ => ?_
    have hanswer : (((s.summary? b).map Answer.summary).getD .done).calls = [] := by
      cases s.summary? b <;> rfl
    exact .report (e := {}) (.refl s) rfl hanswer _ _
  | .read handle call => exact Session.Retells.withHandle fun b hb => .read h hb call _
  | .deadline handle lead during launch =>
    unfold Op.run Op.trail
    refine Session.Retells.withHandle fun b hb => ?_
    have hhandle := Session.mem_handles_of_bufferOf? hb
    have hopened := Session.Follows.startDeadline hhandle lead
    have hstarted := s.started_startDeadline b lead
    have hregular := h.startDeadline b lead
    have hcases := s.startDeadline_cases b lead
    dsimp only at hcases ⊢
    rcases hcases with ⟨-, hdone⟩ | ⟨a, buffer, -, rfl, -, harmings, hopening⟩
    · cases hopening : (s.startDeadline b lead).2.2 with
      | complete => exact .report hopened hstarted rfl _ _
      | badThreadName => exact .report hopened hstarted rfl _ _
      | inFlight a => exact absurd hopening (hdone a)
    · rw [hopening]
      have hinside := Op.retells_runAll during hregular
      have hafter := Op.regular_runAll during hregular
      have ha : (Op.runAll during (s.startDeadline a.buffer lead).1).1.armings
          = a :: (s.onBuffer a.buffer
            (·.startDeadline s.now (lead.map (Lead.instant s.now)))).1.armings := by
        rw [Op.armings_runAll, harmings]
      have hclosed := (Session.Follows.finishDeadline hafter ha launch).trans (.retire _ a.buffer)
      rw [List.append_nil, List.append_nil] at hclosed
      exact .deadline rfl hopened hstarted hinside hclosed
        ((Session.started_retire _ _).trans (Session.started_finishDeadline _ a launch)) _ _
  | .elapse handle =>
    exact .report (.elapse h) (Session.started_wakeAlarms _ _ _) rfl _ _

/-- Operations one after the other. -/
theorem Op.retells_runAll (ops : List Op) {s : Session} (h : s.Regular) :
    s.Retells (Op.trailAll ops s) (Report.entriesAll (Op.runAll ops s).2)
      (Op.runAll ops s).1 := by
  match ops with
  | [] => exact .refl s
  | op :: rest => exact (Op.retells_run op h).trans (Op.retells_runAll rest (Op.regular_run op h))

end

namespace Session

/-- Up to a boundary the views are what their histories make of them, and the reports made so
    far tell which calls ended, with what the first halves of open changes ended. -/
theorem Past.follows {s t : Session} {ops : List Op} {steps : List Step} {seen : List Report}
    {underway : List (Nat × Outcome)} (hpast : Past s ops steps seen underway t)
    (h : s.Regular) :
    ∃ told, s.Follows steps told t
      ∧ ∀ i o, (i, o) ∈ told
        ↔ tells s.started (Report.entriesAll seen) i o ∨ (i, o) ∈ underway := by
  induction hpast with
  | here s ops =>
    refine ⟨[], .refl s, fun i o => iff_of_false List.not_mem_nil ?_⟩
    rintro ((⟨j, -, hj⟩ | hmem) | hmem)
    · cases hj
    · cases hmem
    · cases hmem
  | @next s t op ops steps seen underway _ ih =>
    obtain ⟨hstarted, told₁, hfirst, htold₁⟩ := Op.retells_run op h
    obtain ⟨told₂, hrest, htold₂⟩ := ih (Op.regular_run op h)
    refine ⟨told₁ ++ told₂, hfirst.trans hrest, fun i o => ?_⟩
    have hentries : Report.entriesAll ((op.run s).2 :: seen)
        = (op.run s).2.entries ++ Report.entriesAll seen := rfl
    rw [List.mem_append, htold₁, htold₂, hentries, tells_append, hstarted, or_assoc]
  | @inside s t first e a handle b lead during ops launch steps seen underway hhandle hfirst _ ih =>
    have hopened := Follows.startDeadline (mem_handles_of_bufferOf? hhandle) lead
    have hregular := h.startDeadline b lead
    have hstarted := s.started_startDeadline b lead
    rw [hfirst] at hopened hregular hstarted
    obtain ⟨told, hrest, htold⟩ := ih hregular
    refine ⟨e.ended ++ told, hopened.trans hrest, fun i o => ?_⟩
    rw [List.mem_append, htold, List.mem_append, hstarted]
    exact or_left_comm

end Session

end StreamBuffer
