/-
  StreamBuffer.Proofs.Session.Isolation

  Buffers are independent of each other, and handles of one buffer are as good as each other.

  What shows of a buffer is a function of its history (`Past.of_history`): the summary, for as
  long as something holds on to it, the calls that wait in their order, and how calls ended.
  What is done to other buffers, before or after or inside what is done to this one, is no part
  of that. An operation, other than a drop, may be redirected to another handle of its buffer
  (`runAll_of_redirects`), a handle may go while something else holds on to the buffer, and the
  timers that come with one tick may go off in any order (`buffers_independent`).
-/
import StreamBuffer.Proofs.Session.Tracking
import StreamBuffer.Proofs.Session.Numbering

namespace StreamBuffer

/-! ## Calls by their places -/

/-- The two calls have the same place, the one among the first calls and the other among the
    second. -/
def Paired (calls calls' : List Nat) (i i' : Nat) : Prop :=
  ∃ k : Nat, calls[k]? = some i ∧ calls'[k]? = some i'

theorem forall₂_paired {calls calls' ids ids' line : List Nat}
    (h : ids.map some = line.map (calls[·]?)) (h' : ids'.map some = line.map (calls'[·]?)) :
    List.Forall₂ (Paired calls calls') ids ids' := by
  induction line generalizing ids ids' with
  | nil =>
    rw [List.map_nil, List.map_eq_nil_iff] at h h'
    rw [h, h']
    exact .nil
  | cons k rest ih =>
    rw [List.map_cons, List.map_eq_cons_iff] at h h'
    obtain ⟨i, rest₁, rfl, hi, hrest⟩ := h
    obtain ⟨i', rest₂, rfl, hi', hrest'⟩ := h'
    exact .cons ⟨k, hi.symm, hi'.symm⟩ (ih hrest hrest')

theorem exists_read_of_mem_callsOn {steps : List Step} {b i : Nat} (h : i ∈ callsOn b steps) :
    ∃ call, Step.on b (.read i call) ∈ steps := by
  obtain ⟨step, hmem, hcall⟩ := List.mem_filterMap.mp h
  cases step with
  | elapse => cases hcall
  | on c d =>
    cases d with
    | read id call =>
      simp only [Step.callOn?] at hcall
      split at hcall
      · rename_i hc
        cases hcall
        exact ⟨call, hc ▸ hmem⟩
      · cases hcall
    | _ => cases hcall

/-- Where no two steps begin a call of the same number, a call is on one buffer. -/
theorem eq_of_mem_callsOn {steps : List Step} (h : (callsIn steps).Nodup) {b b' i : Nat}
    (hb : i ∈ callsOn b steps) (hb' : i ∈ callsOn b' steps) : b = b' := by
  obtain ⟨call, hmem⟩ := exists_read_of_mem_callsOn hb
  obtain ⟨call', hmem'⟩ := exists_read_of_mem_callsOn hb'
  have hpairs := List.pairwise_iff_getElem.mp (List.pairwise_filterMap.mp h)
  obtain ⟨m, hm, hstep⟩ := List.getElem_of_mem hmem
  obtain ⟨m', hm', hstep'⟩ := List.getElem_of_mem hmem'
  have hcall : steps[m].call? = some i := by rw [hstep]; rfl
  have hcall' : steps[m'].call? = some i := by rw [hstep']; rfl
  rcases Nat.lt_trichotomy m m' with hlt | rfl | hlt
  · exact absurd rfl (hpairs m m' hm hm' hlt i hcall i hcall')
  · exact (Step.on.inj (hstep.symm.trans hstep')).1
  · exact absurd rfl (hpairs m' m hm' hm hlt i hcall' i hcall)

namespace Session

/-! ## One buffer in a session -/

/-- By the reports made so far the call ended with the outcome, in its own step or woken by a
    later one; `underway` are the calls that the first halves of open changes ended. -/
def Told (seen : List Report) (underway : List (Nat × Outcome)) (i : Nat) (o : Outcome) : Prop :=
  (callsOf (Report.entriesAll seen))[i]? = some (.ended o)
    ∨ (i, o) ∈ wokenBy (Report.entriesAll seen) ++ underway

/-- The steps of a session that begins with one buffer, the making of that buffer included. -/
def allSteps (c : Config) (steps : List Step) : List Step := .on 0 (.create c) :: steps

variable {c : Config} {t : Session} {ops : List Op} {steps : List Step} {seen : List Report}
  {underway : List (Nat × Outcome)}

theorem Regular.start (c : Config) : (({} : Session).create c).1.Regular := Regular.empty.create c

/-- Every view is what what the steps mean for its buffer makes of nothing. -/
theorem Past.tracks (h : Past (({} : Session).create c).1 ops steps seen underway t) :
    t.Tracks (fun b => (({} : View).follow (project b (allSteps c steps))).1)
      ∧ ∀ i o, Told seen underway i o
        ↔ ∃ b, (i, o) ∈ (({} : View).follow (project b (allSteps c steps))).2 := by
  have hempty : ({} : Session).Tracks fun _ => {} := Tracks.of_view_eq fun _ => rfl
  obtain ⟨told, hfollows, htold⟩ := h.follows (.start c)
  have hwhole := (Follows.create Regular.empty c).trans hfollows
  obtain ⟨htracks, hended⟩ := hwhole _ hempty
  refine ⟨htracks, fun i o => ?_⟩
  have htells : Told seen underway i o ↔ (i, o) ∈ told := by
    have hzero : (∃ j, i = (({} : Session).create c).1.started + j
          ∧ (callsOf (Report.entriesAll seen))[j]? = some (.ended o))
        ↔ (callsOf (Report.entriesAll seen))[i]? = some (.ended o) := by
      constructor
      · rintro ⟨j, hi, hj⟩
        obtain rfl : i = j := hi.trans (Nat.zero_add j)
        exact hj
      · exact fun hi => ⟨i, (Nat.zero_add i).symm, hi⟩
    rw [htold, tells, hzero, or_assoc, ← List.mem_append]
    rfl
  rw [htells]
  exact hended i o

theorem Past.waitingIds_eq (h : Past (({} : Session).create c).1 ops steps seen underway t)
    (b : Nat) :
    t.waitingIds b = (({} : View).follow (project b (allSteps c steps))).1.waitingIds := by
  obtain ⟨htracks, -⟩ := h.tracks
  cases halive : t.isAlive b with
  | true => rw [← htracks.alive b halive, waitingIds_view]
  | false =>
    rw [(htracks.dead b halive).2, ← waitingIds_view]
    exact (isAlive_false_iff.mp halive).2.2

/-- A call on a buffer ends as it does in what becomes of the buffer alone. -/
theorem Past.told_iff (h : Past (({} : Session).create c).1 ops steps seen underway t) {b i : Nat}
    (hi : i ∈ callsOn b (allSteps c steps)) (o : Outcome) :
    Told seen underway i o
      ↔ (i, o) ∈ (({} : View).follow (project b (allSteps c steps))).2 := by
  have hnodup : (callsIn (allSteps c steps)).Nodup := by
    show (callsIn steps).Nodup
    rw [h.numbers.2]
    exact List.nodup_range'
  rw [h.tracks.2]
  refine ⟨fun hend => ?_, fun hmem => ⟨b, hmem⟩⟩
  obtain ⟨b', hmem⟩ := hend
  -- the buffer in which it ends is the one that it began on
  have hshows : View.Shows (({} : View).follow (project b' (allSteps c steps))) i :=
    Or.inl (mem_endedIds_iff.mpr ⟨o, hmem⟩)
  have hi' : i ∈ callsOn b' (allSteps c steps) := by
    rw [← callNumbers_project]
    exact (View.shows_follow hshows).resolve_left List.not_mem_nil
  rw [eq_of_mem_callsOn hnodup hi hi']
  exact hmem

/-- What shows of a buffer is what its history makes of nothing, but for the numbers of the
    calls: they are those at the same places among the calls on the buffer. -/
theorem Past.of_history (h : Past (({} : Session).create c).1 ops steps seen underway t)
    (b : Nat) :
    let calls := callsOn b (allSteps c steps)
    let made := ({} : View).follow (numbered 0 (history b (allSteps c steps)))
    (t.isAlive b = true → t.summary? b = made.1.summary?)
      ∧ (t.waitingIds b).map some = made.1.waitingIds.map (calls[·]?)
      ∧ ∀ k i, calls[k]? = some i → ∀ o, Told seen underway i o ↔ (k, o) ∈ made.2 := by
  intro calls made
  let ρ : Nat → Nat := fun k => calls[k]?.getD 0
  obtain ⟨halike, hended⟩ := View.alike_history b (allSteps c steps) (ρ := ρ)
    fun j i hj => by rw [show ρ j = calls[j]?.getD 0 from rfl, hj]; rfl
  -- the numbers that show are places among the calls
  have hplaces : ∀ {k}, View.Shows made k → calls[k]? = some (ρ k) := by
    intro k hk
    have hnumber := (View.shows_follow hk).resolve_left List.not_mem_nil
    rw [callNumbers_numbered, List.mem_range'_1] at hnumber
    have hlength : (callNumbers (history b (allSteps c steps))).length = calls.length :=
      length_callNumbers_history b _
    have hlt : k < calls.length := by omega
    show calls[k]? = some (calls[k]?.getD 0)
    rw [List.getElem?_eq_getElem hlt]
    rfl
  refine ⟨fun hb => ?_, ?_, fun k i hk o => ?_⟩
  · rw [(h.regular (.start c)).tended.summary?_eq, h.tracks.1.alive b hb]
    exact halike.summary?_eq
  · rw [h.waitingIds_eq, halike.waitingIds_eq, List.map_map]
    exact List.map_congr_left fun k hk => (hplaces (Or.inr hk)).symm
  · rw [h.told_iff (List.mem_of_getElem? hk), hended]
    have hnodup : calls.Nodup := h.nodup_callsOn b
    constructor
    · intro hmem
      obtain ⟨⟨k', o'⟩, hmade, hpair⟩ := List.mem_map.mp hmem
      obtain ⟨hi, rfl⟩ := Prod.mk.inj hpair
      -- no two places have the same call
      have hk' := hplaces (Or.inl (mem_endedIds_iff.mpr ⟨o', hmade⟩))
      rw [show ρ k' = i from hi] at hk'
      have hlt : k < calls.length := (List.getElem?_eq_some_iff.mp hk).1
      obtain rfl := (List.getElem?_inj hlt hnodup).mp (hk.trans hk'.symm)
      exact hmade
    · intro hmade
      have hρ : ρ k = i := Option.some.inj ((hplaces (Or.inl
        (mem_endedIds_iff.mpr ⟨o, hmade⟩))).symm.trans hk)
      exact List.mem_map.mpr ⟨(k, o), hmade, congrArg (·, o) hρ⟩

end Session

/-! ## Handles of one buffer -/

/-- The operation through another handle. -/
def Op.via (h : Nat) : Op → Op
  | .create _ c => .create h c
  | .share _ => .share h
  | .drop _ => .drop h
  | .write _ chunk => .write h chunk
  | .close _ => .close h
  | .inspect _ => .inspect h
  | .read _ call => .read h call
  | .deadline _ lead during launch => .deadline h lead during launch
  | .elapse _ => .elapse h

/-- The operation drops its handle. -/
def Op.drops : Op → Bool
  | .drop _ => true
  | _ => false

/-- To every operation but a drop one handle of a buffer is as good as another. -/
theorem Op.run_via {op : Op} {s : Session} {h : Nat} (hkeeps : op.drops = false)
    (hsame : s.bufferOf? h = s.bufferOf? op.handle) : (op.via h).run s = op.run s := by
  cases op with
  | drop handle => cases hkeeps
  | _ =>
    simp only [handle] at hsame
    simp only [via, run, Session.withHandle, hsame]

namespace Session

/-- Operations run from `s`, and the same with some of them redirected to other handles of
    their buffers, inside changes of a deadline as well as outside. -/
inductive Redirects : Session → List Op → List Op → Prop where
  | nil (s : Session) : Redirects s [] []
  | keep {s : Session} {op : Op} {ops ops' : List Op} (hrest : Redirects (op.run s).1 ops ops') :
      Redirects s (op :: ops) (op :: ops')
  | other {s : Session} {op : Op} {ops ops' : List Op} {h b : Nat} (hkeeps : op.drops = false)
      (hold : s.bufferOf? op.handle = some b) (hnew : s.bufferOf? h = some b)
      (hrest : Redirects (op.run s).1 ops ops') : Redirects s (op :: ops) (op.via h :: ops')
  | inside {s first : Session} {e : Effects} {a : Arming} {h h' b : Nat} {lead : Option Lead}
      {during during' ops ops' : List Op} {launch : Launch} (hold : s.bufferOf? h = some b)
      (hnew : s.bufferOf? h' = some b) (hfirst : s.startDeadline b lead = (first, e, .inFlight a))
      (hduring : Redirects first during during')
      (hrest : Redirects (Op.run (.deadline h lead during launch) s).1 ops ops') :
      Redirects s (.deadline h lead during launch :: ops) (.deadline h' lead during' launch :: ops')

theorem runAll_of_redirects {s : Session} {ops ops' : List Op} (h : Redirects s ops ops') :
    Op.runAll ops' s = Op.runAll ops s := by
  induction h with
  | nil s => rfl
  | keep _ ih =>
    rw [Op.runAll, Op.runAll]
    dsimp only
    rw [ih]
  | other hkeeps hold hnew _ ih =>
    rw [Op.runAll, Op.runAll]
    dsimp only
    rw [Op.run_via hkeeps (hnew.trans hold.symm), ih]
  | @inside s first e a h h' b lead during during' ops ops' launch hold hnew hfirst _ _ ihduring
      ihrest =>
    have hrun : Op.run (.deadline h' lead during' launch) s
        = Op.run (.deadline h lead during launch) s := by
      simp only [Op.run, withHandle, hold, hnew, hfirst, ihduring]
    rw [Op.runAll, Op.runAll]
    dsimp only
    rw [hrun, ihrest]

/-! ## Independence -/

/-- In whatever order the threads wake, the same calls end. -/
theorem Regular.perm_ended_elapseIn {s : Session} (h : s.Regular) {order : List Nat}
    (horder : order.Perm (List.range s.alarms.length)) :
    (s.elapseIn order).2.ended.Perm s.elapse.2.ended := by
  have hnodup : ∀ order : List Nat, (s.elapseIn order).2.ended.Nodup := by
    intro order
    have hacts : Acts s [] (s.elapseIn order).2.ended (s.elapseIn order).1 :=
      Acts.of_eq_left (acts_wakeAlarms { s with now := s.now + 1 } _ order) rfl rfl
    obtain ⟨hids, -⟩ := h.nodup_acts (k := 0) hacts rfl
    exact List.Nodup.of_map Prod.fst (List.nodup_append.mp hids).1
  refine (List.perm_ext_iff_of_nodup (hnodup order) (hnodup (List.range s.alarms.length))).mpr ?_
  rintro ⟨k, o⟩
  rw [mem_ended_elapseIn h.tended horder, mem_ended_elapseIn h.tended (List.Perm.refl _)]

/-- Buffers are independent, and handles are interchangeable. What shows of a buffer between
    two steps, in one session or in two, depends on nothing but its history: what was done to
    it, through whichever handle, and when time passed. To redirect operations to other
    handles of their buffers changes neither the session nor a report. To drop a handle to a
    buffer that something else holds on to changes nothing but the handle. And in whatever
    order the timers' threads wake when time passes, the session comes out the same, and the
    same calls end in the same way. -/
theorem buffers_independent :
    (∀ {c c' : Config} {ops ops' : List Op} {steps steps' : List Step} {seen seen' : List Report}
        {underway underway' : List (Nat × Outcome)} {t t' : Session},
      Past (({} : Session).create c).1 ops steps seen underway t →
      Past (({} : Session).create c').1 ops' steps' seen' underway' t' →
      ∀ b b' : Nat, history b (allSteps c steps) = history b' (allSteps c' steps') →
        let calls := callsOn b (allSteps c steps)
        let calls' := callsOn b' (allSteps c' steps')
        (t.isAlive b = true → t'.isAlive b' = true → t'.summary? b' = t.summary? b)
          ∧ List.Forall₂ (Paired calls calls') (t.waitingIds b) (t'.waitingIds b')
          ∧ ∀ i i', Paired calls calls' i i' →
            ∀ o, Told seen underway i o ↔ Told seen' underway' i' o)
      ∧ (∀ {s : Session} {ops ops' : List Op}, Redirects s ops ops' →
        Op.runAll ops' s = Op.runAll ops s)
      ∧ (∀ {s : Session} {h b : Nat}, s.bufferOf? h = some b →
        ({ s with handles := s.handles.set h none } : Session).isAlive b = true →
        (Op.run (.drop h) s).1 = { s with handles := s.handles.set h none })
      ∧ ∀ {c : Config} {ops : List Op} {seen : List Report} {underway : List (Nat × Outcome)}
          {t : Session}, Boundary (({} : Session).create c).1 ops seen underway t →
        ∀ order : List Nat, order.Perm (List.range t.alarms.length) →
          (t.elapseIn order).1 = t.elapse.1
            ∧ (t.elapseIn order).2.ended.Perm t.elapse.2.ended := by
  refine ⟨?_, fun h => runAll_of_redirects h, ?_, ?_⟩
  · intro c c' ops ops' steps steps' seen seen' underway underway' t t' h h' b b' hsame calls calls'
    obtain ⟨hsummary, hwaiting, htold⟩ := h.of_history b
    obtain ⟨hsummary', hwaiting', htold'⟩ := h'.of_history b'
    rw [← hsame] at hsummary' hwaiting' htold'
    refine ⟨fun halive halive' => ?_, forall₂_paired hwaiting hwaiting', ?_⟩
    · rw [hsummary halive, hsummary' halive']
    · rintro i i' ⟨k, hi, hi'⟩ o
      rw [htold k i hi, htold' k i' hi']
  · intro s h b hb halive
    rw [Op.run, withHandle, hb]
    exact if_pos halive
  · intro c ops seen underway t h order horder
    obtain ⟨steps, hpast⟩ := exists_past_of_boundary h
    have hregular := hpast.regular (.start c)
    exact ⟨elapseIn_eq hregular.tended horder, hregular.perm_ended_elapseIn horder⟩

/-- A read that a deadline ends, on the only buffer of a session; and the same on the second
    buffer of another, through two handles of which one is dropped while the deadline is set,
    with a read and a write on the first buffer before and inside. Two reads on two buffers end
    with one tick, whichever timer is the first. -/
theorem buffers_independent_nested :
    let s : Session := (({} : Session).create {}).1
    let alone : List Op := [.read 0 (.read 1), .deadline 0 (some .soon) [] .prompt, .elapse 0]
    let before : List Op := [.create 0 {}, .share 1, .read 0 (.read 1), .read 1 (.read 1)]
    let among : List Op :=
      before ++ [.deadline 2 (some .soon) [.write 0 [9], .drop 1] .prompt, .elapse 0]
    let redirected : List Op :=
      before ++ [.deadline 1 (some .soon) [.write 0 [9], .drop 1] .prompt, .elapse 0]
    let t : Session := (Op.runAll before s).1
    let u : Session := (Op.runAll
      [.deadline 0 (some .soon) [] .prompt, .deadline 1 (some .soon) [] .prompt] t).1
    Told (Op.runAll alone s).2 [] 0 (.readFailed .deadlineExceeded)
      ∧ Told (Op.runAll among s).2 [] 1 (.readFailed .deadlineExceeded)
      ∧ Op.runAll redirected s = Op.runAll among s
      ∧ (Op.run (.drop 1) t).1 = { t with handles := t.handles.set 1 none }
      ∧ (u.elapseIn [1, 0]).1 = u.elapse.1
      ∧ (u.elapseIn [1, 0]).2.ended = [(1, .readFailed .deadlineExceeded),
          (0, .readFailed .deadlineExceeded)]
      ∧ (u.elapseIn [1, 0]).2.ended.Perm u.elapse.2.ended := by
  intro s alone before among redirected t u
  obtain ⟨hindependent, hredirect, hdrop, horder⟩ := buffers_independent
  have halike : history 0 (allSteps {} (Op.trailAll
        [.read 0 (.read 1), .deadline 0 (some .soon) [] .prompt, .elapse 0]
        (({} : Session).create {}).1))
      = [some (.create {}), some (.read 0 (.read 1)), some (.startDeadline (some .soon)),
        some (.finishDeadline .prompt), none] := by with_unfolding_all rfl
  have halike' : history 1 (allSteps {} (Op.trailAll
        [.create 0 {}, .share 1, .read 0 (.read 1), .read 1 (.read 1),
          .deadline 2 (some .soon) [.write 0 [9], .drop 1] .prompt, .elapse 0]
        (({} : Session).create {}).1))
      = [some (.create {}), some (.read 0 (.read 1)), some (.startDeadline (some .soon)),
        some (.finishDeadline .prompt), none] := by with_unfolding_all rfl
  obtain ⟨-, -, htold⟩ := hindependent (past_runAll s alone) (past_runAll s among) 0 1
    (halike.trans halike'.symm)
  have hpaired : Paired (callsOn 0 (allSteps {} (Op.trailAll alone s)))
      (callsOn 1 (allSteps {} (Op.trailAll among s))) 0 1 :=
    ⟨0, by decide +kernel, by decide +kernel⟩
  have halone : Told (Op.runAll alone s).2 [] 0 (.readFailed .deadlineExceeded) :=
    Or.inr (by decide +kernel)
  have hredirects : Redirects s among redirected := by
    refine .keep (.keep (.keep (.keep ?_)))
    exact .other (b := 1) (h := 1) rfl (by decide +kernel) (by decide +kernel) (.keep (.nil _))
  have hboundary : Boundary s (before ++ [.deadline 0 (some .soon) [] .prompt,
      .deadline 1 (some .soon) [] .prompt]) _ [] u := .after (boundary_runAll t _)
  have hdropped := hdrop (s := t) (h := 1) (b := 1) (by decide +kernel) (by decide +kernel)
  obtain ⟨hsame, hperm⟩ := horder hboundary [1, 0] (by decide +kernel)
  exact ⟨halone, (htold 0 1 hpaired _).mp halone, hredirect hredirects, hdropped, hsame,
    by decide +kernel, hperm⟩

end Session

end StreamBuffer
