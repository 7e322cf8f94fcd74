/-
  StreamBuffer.Proofs.Session.Repetition

  To close a buffer twice in a row, or to set the same deadline twice in a row, is as good as
  to do it once.

  The second time ends no call, and opens a generation of which nothing else shows: the session
  afterwards is kin to the one before it (`kin_repeated`). Whatever comes later, operations and
  the ends of the changes within which they run (`Later`), is then reported on alike, but for
  the events, and every buffer shows the same (`repetition_unobservable`).
-/
import StreamBuffer.Proofs.Session.Reporting
import StreamBuffer.Proofs.Session.Isolation

namespace StreamBuffer

/-! ## What is repeated -/

/-- The operation closes a buffer, or sets its deadline with nothing in between. -/
def Op.Repeatable : Op → Prop
  | .close _ => True
  | .deadline _ _ during _ => during = []
  | _ => False

/-- What such an operation makes of the view of its buffer. -/
def View.perform (v : View) : Op → Result
  | .close _ => v.act .close
  | .deadline _ lead _ launch => v.change lead launch
  | _ => (v, [])

/-- Done again, it opens a generation and does nothing else. -/
theorem View.perform_again {v : View} {b : Buffer} {x : Op} (hb : v.buffer = some b)
    (hx : x.Repeatable) :
    let once := (v.perform x).1
    v.Renews once ∧ once.perform x = (once.refreshed, []) := by
  cases x with
  | close handle => exact ⟨renews_close hb, v.act_close_again⟩
  | deadline handle lead during launch =>
    exact ⟨renews_change hb lead launch, change_again hb lead launch⟩
  | _ => exact hx.elim

namespace Session

/-- The operation made `t` of `s`, reported as `r`, and did to the view of its buffer what it
    does to any, and to no other. -/
structure Performs (s : Session) (x : Op) (b : Nat) (t : Session) (r : Report) : Prop where
  regular : t.Regular
  here : t.view b = ((s.view b).perform x).1
  elsewhere : ∀ c ≠ b, t.view c = s.view c
  handles : t.handles = s.handles
  started : t.started = s.started
  armings : t.armings = s.armings
  woken : wokenBy r.entries = ((s.view b).perform x).2.mergeSort fun i j => i.1 ≤ j.1

theorem wokenBy_report (s : Session) (b : Option Nat) (answer : Answer) (e : Effects) :
    wokenBy (s.report b answer e none).entries = e.ended.mergeSort fun i j => i.1 ≤ j.1 :=
  wokenBy_singleton _

variable {s : Session} {handle b : Nat}

theorem performs_close (h : s.Regular) (hb : s.bufferOf? handle = some b) :
    s.Performs (.close handle) b (Op.run (.close handle) s).1 (Op.run (.close handle) s).2 := by
  have hrun : Op.run (.close handle) s
      = ((s.close b).1, (s.close b).1.report (some b) .done (s.close b).2 none) := by
    rw [Op.run, withHandle, hb]
  have hdoes := s.does_close b
  rw [hrun]
  refine ⟨h.onBuffer b (a := .close) rfl rfl, congrArg Prod.fst hdoes.here, hdoes.elsewhere,
    s.handles_onBuffer b _, s.started_onBuffer b _, s.armings_onBuffer b _, ?_⟩
  rw [wokenBy_report, View.perform, ← hdoes.here]

/-- A change that is over with its first half. -/
theorem performs_startDeadline (h : s.Regular) (hb : s.bufferOf? handle = some b)
    {lead : Option Lead} (hflies : (s.view b).flies lead = false) (launch : Launch) :
    let x := Op.deadline handle lead [] launch
    s.Performs x b (x.run s).1 (x.run s).2 := by
  intro x
  have hdoes := s.does_startDeadline b lead
  have hperform : (s.view b).perform x = (s.view b).act (.startDeadline lead) := by
    rw [View.perform, View.change, hflies]
    rfl
  obtain ⟨hopening, harmings⟩ : (s.startDeadline b lead).2.2 = (s.view b).grounded lead
      ∧ (s.startDeadline b lead).1.armings = s.armings := by
    rcases s.startDeadline_opening b lead with ⟨hfly, -⟩ | ⟨-, hopening, harmings⟩
    · cases hflies.symm.trans hfly
    · exact ⟨hopening, harmings⟩
  have hrun : ∃ answer, x.run s = ((s.startDeadline b lead).1,
      (s.startDeadline b lead).1.report (some b) answer (s.startDeadline b lead).2.1 none) := by
    rw [Op.run, withHandle, hb]
    dsimp only
    rw [hopening]
    split
    · exact ⟨.deadlineSet, rfl⟩
    · exact ⟨.badThreadName, rfl⟩
    · rename_i a hground
      exact absurd hground ((s.view b).grounded_ne lead a)
  obtain ⟨answer, hrun⟩ := hrun
  rw [hrun]
  refine ⟨h.startDeadline b lead, ?_, hdoes.elsewhere, s.handles_startDeadline b lead,
    s.started_startDeadline b lead, harmings, ?_⟩
  · rw [hperform, ← hdoes.here]
  · rw [wokenBy_report, hperform, ← hdoes.here]

/-- A change that goes through both its halves. -/
theorem performs_change (h : s.Regular) (hb : s.bufferOf? handle = some b)
    {lead : Option Lead} (hflies : (s.view b).flies lead = true) (launch : Launch) :
    let x := Op.deadline handle lead [] launch
    s.Performs x b (x.run s).1 (x.run s).2 := by
  intro x
  obtain ⟨a, rfl, hopening, harmings⟩ : ∃ a, a.buffer = b
      ∧ (s.startDeadline b lead).2.2 = .inFlight a
      ∧ (s.startDeadline b lead).1.armings = a :: s.armings := by
    rcases s.startDeadline_opening b lead with ⟨-, hinFlight⟩ | ⟨hnot, -⟩
    · exact hinFlight
    · cases hflies.symm.trans hnot
  let first := s.startDeadline a.buffer lead
  let second := first.1.finishDeadline a launch
  have hregular : first.1.Regular := h.startDeadline a.buffer lead
  have hhandles : first.1.handles = s.handles := s.handles_startDeadline a.buffer lead
  have hfirst := s.does_startDeadline a.buffer lead
  have hsecond := does_finishDeadline hregular.tended harmings launch
  -- the caller has the handle still, and so nothing is retired
  have halive : second.1.isAlive a.buffer = true := by
    refine Follows.isAlive_of_handle ?_
    rw [handles_finishDeadline, hhandles]
    exact mem_handles_of_bufferOf? hb
  have hretire : second.1.retire a.buffer = second.1 := if_pos halive
  have hrun : x.run s = (second.1,
      second.1.report (some a.buffer) .deadlineSet (first.2.1 ++ second.2) (some [])) := by
    rw [Op.run, withHandle, hb]
    dsimp only
    rw [hopening]
    exact congrArg (·, _) hretire
  have hperform : (s.view a.buffer).perform x
      = (second.1.view a.buffer, first.2.1.ended ++ second.2.ended) := by
    rw [View.perform, View.change, hflies, if_pos rfl, ← hfirst.here, ← hsecond.here]
  rw [hrun]
  refine ⟨hregular.finishDeadline (by rw [harmings]; exact List.mem_cons_self) launch, ?_,
    fun c hc => (hsecond.elsewhere c hc).trans (hfirst.elsewhere c hc),
    (first.1.handles_finishDeadline a launch).trans hhandles,
    (first.1.started_finishDeadline a launch).trans (s.started_startDeadline a.buffer lead), ?_, ?_⟩
  · rw [hperform]
  · show second.1.armings = s.armings
    rw [armings_finishDeadline, harmings, List.erase_cons_head]
  · rw [hperform]
    exact wokenBy_singleton _

/-- What is repeated is performed, on the buffer its handle refers to. -/
theorem performs (h : s.Regular) {x : Op} (hx : x.Repeatable)
    (hb : s.bufferOf? x.handle = some b) : s.Performs x b (x.run s).1 (x.run s).2 := by
  cases x with
  | close handle => exact performs_close h hb
  | deadline handle lead during launch =>
    obtain rfl : during = [] := hx
    cases hflies : (s.view b).flies lead with
    | false => exact performs_startDeadline h hb hflies launch
    | true => exact performs_change h hb hflies launch
  | _ => exact hx.elim

/-- It opens one generation. -/
theorem openings_trail_of_repeatable {x : Op} (hx : x.Repeatable)
    (hb : s.bufferOf? x.handle = some b) : openings (x.trail s) = 1 := by
  cases x with
  | close handle =>
    have hin : s.bufferOf? handle = some b := hb
    rw [Op.trail, trailVia, hin]
    rfl
  | deadline handle lead during launch =>
    obtain rfl : during = [] := hx
    have hin : s.bufferOf? handle = some b := hb
    rw [Op.trail, trailVia, hin]
    dsimp only
    cases (s.startDeadline b lead).2.2 <;> rfl
  | _ => exact hx.elim

/-- Through a handle that refers to no buffer nothing is done. -/
theorem run_of_no_handle {x : Op} (hx : x.Repeatable) (hnone : s.bufferOf? x.handle = none) :
    x.run s = (s, .noHandle) := by
  cases x with
  | close handle => exact by rw [Op.run, withHandle, show s.bufferOf? handle = none from hnone]
  | deadline handle lead during launch =>
    rw [Op.run, withHandle, show s.bufferOf? handle = none from hnone]
  | _ => exact hx.elim

/-- The session after the second time is kin to the one before it, and no call ends. -/
theorem kin_repeated {n k : Nat} (h : s.Regular) {x : Op} (hx : x.Repeatable)
    (haged : ∀ b, s.isAlive b = true → (s.view b).Aged n)
    (hk : n + openings (x.trail s) + openings (x.trail (x.run s).1) + k < UInt64.size) :
    Kin k (x.run (x.run s).1).1 (x.run s).1 ∧ wokenBy (x.run (x.run s).1).2.entries = [] := by
  cases hb : s.bufferOf? x.handle with
  | none =>
    rw [run_of_no_handle hx hb]
    dsimp only
    rw [run_of_no_handle hx hb]
    exact ⟨.refl k h, rfl⟩
  | some b =>
    have hfirst := performs h hx hb
    have hb' : (x.run s).1.bufferOf? x.handle = some b := by
      rw [bufferOf?, hfirst.handles]
      exact hb
    have hsecond := performs hfirst.regular hx hb'
    rw [openings_trail_of_repeatable hx hb, openings_trail_of_repeatable hx hb'] at hk
    obtain ⟨buffer, hbuffer⟩ := h.exists_buffer hb
    obtain ⟨hrenews, hagain⟩ := View.perform_again (buffer_view hbuffer) hx
    have halive : s.isAlive b = true := Follows.isAlive_of_handle (mem_handles_of_bufferOf? hb)
    rw [← hfirst.here] at hrenews hagain
    refine ⟨⟨hsecond.regular, hfirst.regular, hsecond.handles.symm, hsecond.started.symm,
      congrArg _ hsecond.armings.symm, fun c => ?_⟩, ?_⟩
    · by_cases hc : c = b
      · rw [hc, hsecond.here, hagain]
        exact .refreshed hrenews (haged b halive) (by omega)
      · rw [hsecond.elsewhere c hc]
        exact .refl k _
    · rw [hsecond.woken, hagain]
      exact List.mergeSort_nil

end Session

/-! ## What comes later -/

/-- What may come next at a boundary: an operation; the first half of a change of the deadline,
    after which operations run inside it; or the second half of the innermost change, which
    ends what runs inside. -/
inductive Later where
  | op (x : Op)
  | start (handle : Nat) (lead : Option Lead)
  | finish (launch : Launch)

namespace Later

/-- Do what comes next, and report on it. -/
def run : Later → Session → Session × Report
  | .op x, s => x.run s
  | .start handle lead, s => s.withHandle handle fun b =>
    let (first, e, opening) := s.startDeadline b lead
    let answer := match opening with
      | .complete => .deadlineSet
      | .badThreadName => .badThreadName
      | .inFlight _ => .done
    (first, first.report b answer e none)
  | .finish launch, s =>
    match s.armings with
    | [] => (s, .noHandle)
    | a :: _ =>
      let (s, e) := s.finishDeadline a launch
      (s.retire a.buffer, s.report a.buffer .deadlineSet e none)

/-- The steps it takes. -/
def trail : Later → Session → List Step
  | .op x, s => x.trail s
  | .start handle lead, s => s.trailVia handle fun b => [.on b (.startDeadline lead)]
  | .finish launch, s =>
    match s.armings with
    | [] => []
    | a :: _ => [.on a.buffer (.finishDeadline launch)]

/-- Do one after the other. -/
def runAll : List Later → Session → Session × List Report
  | [], s => (s, [])
  | l :: rest, s => ((runAll rest (l.run s).1).1, (l.run s).2 :: (runAll rest (l.run s).1).2)

/-- The steps of one after the other. -/
def trailAll : List Later → Session → List Step
  | [], _ => []
  | l :: rest, s => l.trail s ++ trailAll rest (l.run s).1

theorem runAll_append_fst (first second : List Later) (s : Session) :
    (runAll (first ++ second) s).1 = (runAll second (runAll first s).1).1 := by
  induction first generalizing s with
  | nil => rfl
  | cons l rest ih => exact ih (l.run s).1

theorem trailAll_append (first second : List Later) (s : Session) :
    trailAll (first ++ second) s = trailAll first s ++ trailAll second (runAll first s).1 := by
  induction first generalizing s with
  | nil => rfl
  | cons l rest ih =>
    rw [List.cons_append, trailAll, ih, trailAll, List.append_assoc]
    rfl

/-- Operations that come one after the other. -/
theorem runAll_ops (ops : List Op) (s : Session) :
    (runAll (ops.map .op) s).1 = (Op.runAll ops s).1
      ∧ trailAll (ops.map .op) s = Op.trailAll ops s := by
  induction ops generalizing s with
  | nil => exact ⟨rfl, rfl⟩
  | cons x rest ih =>
    obtain ⟨hrun, htrail⟩ := ih (x.run s).1
    exact ⟨hrun, congrArg (x.trail s ++ ·) htrail⟩

/-- In kin sessions it is reported on alike, but for the events. -/
theorem kin_run (l : Later) {k : Nat} {s s' : Session}
    (h : Session.Kin (k + openings (l.trail s)) s s') :
    Session.Kin k (l.run s).1 (l.run s').1 ∧ (l.run s').2.mute = (l.run s).2.mute := by
  cases l with
  | op x => exact x.kin_run h
  | start handle lead =>
    refine Session.Kin.withHandle h fun b _ h => ?_
    obtain ⟨hfirst, hended, hopenings⟩ := Session.Kin.startDeadline h b lead
    refine ⟨hfirst, ?_⟩
    dsimp only
    rcases hopenings with ⟨a, a', hopening, hopening', -⟩ | ⟨hsame, -⟩
    · rw [hopening, hopening']
      exact hfirst.mute_report_of_eq _ _ hended
    · rw [hsame]
      exact hfirst.mute_report_of_eq _ _ hended
  | finish launch =>
    have hsame := h.armings
    rw [run, run]
    rw [trail] at h
    cases ha : s.armings with
    | nil =>
      rw [ha] at h hsame
      have ha' : s'.armings = [] := List.map_eq_nil_iff.mp hsame
      rw [ha']
      exact ⟨h, rfl⟩
    | cons a rest =>
      rw [ha] at h hsame
      obtain ⟨a', rest', ha', hbuffer, -⟩ := List.map_eq_cons_iff.mp hsame
      rw [ha']
      dsimp only
      obtain ⟨hsecond, hended⟩ := Session.Kin.finishDeadline h ha ha' launch
      rw [hbuffer]
      exact ⟨hsecond.retire a.buffer, hsecond.mute_report_of_eq _ _ hended⟩

theorem kin_runAll (later : List Later) {k : Nat} {s s' : Session}
    (h : Session.Kin (k + openings (trailAll later s)) s s') :
    Session.Kin k (runAll later s).1 (runAll later s').1
      ∧ Report.muteAll (runAll later s').2 = Report.muteAll (runAll later s).2 := by
  induction later generalizing s s' with
  | nil => exact ⟨h, rfl⟩
  | cons l rest ih =>
    rw [trailAll, openings_append, Nat.add_comm (openings _), ← Nat.add_assoc] at h
    obtain ⟨hfirst, hreport⟩ := l.kin_run h
    obtain ⟨hrest, hreports⟩ := ih hfirst
    refine ⟨hrest, ?_⟩
    simp only [runAll, Report.muteAll, hreport, hreports]

end Later

namespace Session

variable {s t : Session} {ops : List Op} {steps : List Step} {seen : List Report}
  {underway : List (Nat × Outcome)}

/-- Every boundary comes later than the beginning. -/
theorem Past.exists_before (h : Past s ops steps seen underway t) :
    ∃ before, (Later.runAll before s).1 = t ∧ Later.trailAll before s = steps := by
  induction h with
  | here s ops => exact ⟨[], rfl, rfl⟩
  | @next s t op ops steps seen underway _ ih =>
    obtain ⟨before, hrun, htrail⟩ := ih
    exact ⟨.op op :: before, hrun, congrArg (op.trail s ++ ·) htrail⟩
  | @inside s t first e a handle b lead during ops launch steps seen underway hhandle hfirst _ ih =>
    obtain ⟨before, hrun, htrail⟩ := ih
    have hstart : ((Later.start handle lead).run s).1 = first := by
      simp only [Later.run, withHandle, hhandle, hfirst]
    refine ⟨.start handle lead :: before, ?_, ?_⟩
    · rw [Later.runAll, hstart]
      exact hrun
    · rw [Later.trailAll, hstart, htrail, Later.trail, trailVia, hhandle]
      rfl

/-- What runs from a boundary to the end comes later. -/
theorem Past.exists_later (h : Past s ops steps seen underway t) :
    ∃ later, (Later.runAll later t).1 = (Op.runAll ops s).1
      ∧ steps ++ Later.trailAll later t = Op.trailAll ops s := by
  induction h with
  | here s ops => exact ⟨ops.map .op, Later.runAll_ops ops s⟩
  | @next s t op ops steps seen underway _ ih =>
    obtain ⟨later, hrun, htrail⟩ := ih
    refine ⟨later, hrun, ?_⟩
    rw [List.append_assoc, htrail]
    rfl
  | @inside s t first e a handle b lead during ops launch steps seen underway hhandle hfirst _ ih =>
    obtain ⟨later, hrun, htrail⟩ := ih
    obtain ⟨hab, harmings⟩ : a.buffer = b ∧ first.armings = a :: s.armings := by
      rcases s.startDeadline_opening b lead with ⟨-, a', hab, hopening, harmings⟩ | ⟨-, hopening, -⟩
      · rw [hfirst] at hopening harmings
        obtain rfl := Opening.inFlight.inj hopening
        exact ⟨hab, harmings⟩
      · rw [hfirst] at hopening
        exact absurd hopening.symm ((s.view b).grounded_ne lead a)
    subst hab
    -- what runs inside is over, and the change that it ran in is the innermost one
    let inside := (Op.runAll during first).1
    have hinside : inside.armings = a :: s.armings :=
      (Op.armings_runAll during first).trans harmings
    let after := (inside.finishDeadline a launch).1.retire a.buffer
    have hfinish : ((Later.finish launch).run inside).1 = after
        ∧ (Later.finish launch).trail inside = [.on a.buffer (.finishDeadline launch)] := by
      simp only [Later.run, Later.trail, hinside, and_true]
      rfl
    have hop : (Op.run (.deadline handle lead during launch) s).1 = after
        ∧ Op.trail (.deadline handle lead during launch) s = .on a.buffer (.startDeadline lead)
          :: (Op.trailAll during first ++ [.on a.buffer (.finishDeadline launch)]) := by
      simp only [Op.run, Op.trail, withHandle, trailVia, hhandle, hfirst, and_true]
      rfl
    obtain ⟨hrest, hrestTrail⟩ := Later.runAll_ops ops after
    refine ⟨later ++ .finish launch :: ops.map .op, ?_, ?_⟩
    · rw [Later.runAll_append_fst, hrun, Later.runAll, hfinish.1, hrest, Op.runAll]
      dsimp only
      rw [hop.1]
    · rw [Later.trailAll_append, hrun, Later.trailAll, hfinish.1, hfinish.2, hrestTrail,
        ← List.append_assoc, List.cons_append, htrail, Op.trailAll, hop.1, hop.2]
      simp only [List.cons_append, List.append_assoc]

/-! ## Twice is as good as once -/

/-- No change in flight is older than what was opened so far. -/
theorem Past.aged {c : Config} (h : Past (({} : Session).create c).1 ops steps seen underway t)
    {b : Nat} (hb : t.isAlive b = true) : (t.view b).Aged (openings steps) := by
  have hempty : ({} : View).Aged 0 := nofun
  have haged := hempty.follow (project b (allSteps c steps))
  rw [← h.tracks.1.alive b hb, Nat.zero_add] at haged
  exact haged.mono (View.opens_project_le b (allSteps c steps))

/-- To close a buffer twice in a row, or to set the same deadline twice in a row with the same
    fate of the timer's thread, is as good as to do it once, at every boundary between two steps
    of a session, also inside changes of a deadline. The second time wakes no call to its end.
    Whatever comes later is answered alike: the same calls end in the same steps and in the same
    way, the same wait, and the same summaries are shown; the reports are the same but for the
    events. And then there are the same handles, and each buffer has the same summary and the
    same calls waiting in the same order; as long as fewer generations are opened in all than
    there are. -/
theorem repetition_unobservable {c : Config}
    (h : Past (({} : Session).create c).1 ops steps seen underway t) {x : Op}
    (hx : x.Repeatable) (later : List Later)
    (hcount : openings (steps ++ x.trail t ++ x.trail (x.run t).1
      ++ Later.trailAll later (x.run (x.run t).1).1) < UInt64.size) :
    let once := (x.run t).1
    let twice := (x.run once).1
    wokenBy (x.run once).2.entries = []
      ∧ Report.muteAll (Later.runAll later twice).2 = Report.muteAll (Later.runAll later once).2
      ∧ (Later.runAll later twice).1.handles = (Later.runAll later once).1.handles
      ∧ ∀ b, (Later.runAll later twice).1.summary? b = (Later.runAll later once).1.summary? b
          ∧ (Later.runAll later twice).1.waitingIds b
            = (Later.runAll later once).1.waitingIds b := by
  intro once twice
  rw [openings_append, openings_append, openings_append] at hcount
  obtain ⟨hkin, hwoken⟩ := kin_repeated (k := openings (Later.trailAll later twice))
    (h.regular (.start c)) hx (fun b hb => h.aged hb) hcount
  obtain ⟨hlast, hreports⟩ := Later.kin_runAll later (k := 0) (by rw [Nat.zero_add]; exact hkin)
  exact ⟨hwoken, hreports.symm, hlast.handles.symm,
    fun b => ⟨(hlast.summary?_eq b).symm, (hlast.waitingIds_eq b).symm⟩⟩

/-- Two calls wait, one of them partly filled, and a change of the deadline is in flight when a
    nearer deadline is set inside it, once or twice: a write completes the call that has waited
    longer, and the nearer deadline ends the other. So does closing at the same boundary. -/
theorem repetition_unobservable_in_flight :
    let s : Session := (Op.runAll [.read 0 (.fill 3), .write 0 [1]] (({} : Session).create {}).1).1
    let t : Session := (Op.run (.read 0 (.read 1)) (s.startDeadline 0 (some .far)).1).1
    let set : Op := .deadline 0 (some .soon) [] .prompt
    let later : List Later := [.finish .prompt, .op (.write 0 [2, 3]), .op (.elapse 0)]
    let once : Session := (set.run t).1
    let twice : Session := (set.run once).1
    let closed : Session := (Op.run (.close 0) t).1
    t.waitingIds 0 = [0, 1] ∧ t.armings.length = 1
      ∧ wokenBy (set.run once).2.entries = []
      ∧ wokenBy (Report.entriesAll (Later.runAll later once).2)
        = [(0, .bytes [1, 2, 3]), (1, .readFailed .deadlineExceeded)]
      ∧ Report.muteAll (Later.runAll later twice).2 = Report.muteAll (Later.runAll later once).2
      ∧ (Later.runAll later twice).1.summary? 0 = (Later.runAll later once).1.summary? 0
      ∧ Report.muteAll (Later.runAll later (Op.run (.close 0) closed).1).2
        = Report.muteAll (Later.runAll later closed).2 := by
  intro s t set later once twice closed
  have hopening : (s.startDeadline 0 (some .far)).2.2
      = .inFlight { buffer := 0, generation := 1, deadline := .never } := by decide +kernel
  have hfirst : s.startDeadline 0 (some .far)
      = ((s.startDeadline 0 (some .far)).1, (s.startDeadline 0 (some .far)).2.1,
        .inFlight { buffer := 0, generation := 1, deadline := .never }) :=
    Prod.ext rfl (Prod.ext rfl hopening)
  have hpast : Past (({} : Session).create {}).1 [.read 0 (.fill 3), .write 0 [1],
      .deadline 0 (some .far) [.read 0 (.read 1)] .prompt] _ _ _ t :=
    .next (.next (.inside (b := 0) (by decide +kernel) hfirst (.next (.here _ []))))
  obtain ⟨hwoken, hreports, -, hshows⟩ := repetition_unobservable hpast (x := set) rfl later
    (by decide +kernel)
  obtain ⟨-, hreports', -⟩ := repetition_unobservable hpast (x := .close 0) trivial later
    (by decide +kernel)
  exact ⟨by decide +kernel, by decide +kernel, hwoken, by decide +kernel, hreports,
    (hshows 0).1, hreports'⟩

end Session

end StreamBuffer
