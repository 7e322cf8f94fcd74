/-
  StreamBuffer.Proofs.Session.Reporting

  What is reported on sessions that are kin.

  A muted report has all but the events: what was answered, who was woken and how these calls
  ended, who waits, and the summary, and the same of what ran inside. The reports on an
  operation in kin sessions are the same when they are muted, and the sessions are kin
  afterwards (`Op.kin_run`, by recursion on the tree of operations).
-/
import StreamBuffer.Proofs.Session.Kinship

namespace StreamBuffer

/-! ## Reports without events -/

mutual

/-- The report without the events, and so what ran inside. -/
def Report.mute : Report → Report
  | .noHandle => .noHandle
  | .step answer during woken waiting _ summary =>
    .step answer (Report.muteDuring during) woken waiting [] summary

/-- The reports on what ran during a step, if anything could. -/
def Report.muteDuring : Option (List Report) → Option (List Report)
  | none => none
  | some reports => some (Report.muteAll reports)

/-- Reports on steps one after the other. -/
def Report.muteAll : List Report → List Report
  | [] => []
  | r :: rest => r.mute :: Report.muteAll rest

end

/-- Calls that ended are told by number, so that their order does not matter. -/
theorem mergeSort_eq_of_perm {ended ended' : List (Nat × Outcome)} (h : ended'.Perm ended)
    (hnodup : (Buffer.endedIds ended).Nodup) :
    ended'.mergeSort (fun x y => x.1 ≤ y.1) = ended.mergeSort fun x y => x.1 ≤ y.1 := by
  have hsorted : ∀ l : List (Nat × Outcome),
      (l.mergeSort fun x y => x.1 ≤ y.1).Pairwise fun x y => x.1 ≤ y.1 := by
    intro l
    let le : Nat × Outcome → Nat × Outcome → Bool := fun x y => decide (x.1 ≤ y.1)
    have hpairwise : (l.mergeSort le).Pairwise fun x y => le x y = true :=
      List.pairwise_mergeSort
        (fun x y z hxy hyz => by simp only [le, decide_eq_true_eq] at *; omega)
        (fun x y => by simp only [le, Bool.or_eq_true, decide_eq_true_eq]; omega) l
    exact hpairwise.imp fun hle => of_decide_eq_true hle
  refine List.Perm.eq_of_pairwise (fun x y hx hy hxy hyx => ?_) (hsorted ended') (hsorted ended)
    ((List.mergeSort_perm ended' _).trans (h.trans (List.mergeSort_perm ended _).symm))
  have hmem : x ∈ ended := h.mem_iff.mp (List.mem_mergeSort.mp hx)
  exact List.inj_on_of_nodup_map hnodup hmem (List.mem_mergeSort.mp hy) (Nat.le_antisymm hxy hyx)

namespace Session

namespace Kin

variable {k : Nat} {s s' : Session}

/-- A report looks at what shows of the session, and at what was done. -/
theorem mute_report (h : Kin k s s') (b : Option Nat) (answer : Answer) {e e' : Effects}
    (hended : e'.ended.mergeSort (fun x y => x.1 ≤ y.1) = e.ended.mergeSort fun x y => x.1 ≤ y.1)
    {during during' : Option (List Report)}
    (hduring : Report.muteDuring during' = Report.muteDuring during) :
    (s'.report b answer e' during').mute = (s.report b answer e during).mute := by
  have hwaiting : (b.map s'.waitingIds).getD [] = (b.map s.waitingIds).getD [] := by
    cases b with
    | none => rfl
    | some b => exact h.waitingIds_eq b
  have hsummary : b.bind s'.summary? = b.bind s.summary? := by
    cases b with
    | none => rfl
    | some b => exact h.summary?_eq b
  simp only [report, Report.mute, hended, hduring, hwaiting, hsummary]

/-- A report on a step with nothing inside it. -/
theorem mute_report_of_eq (h : Kin k s s') (b : Option Nat) (answer : Answer) {e e' : Effects}
    (hended : e'.ended = e.ended) :
    (s'.report b answer e' none).mute = (s.report b answer e none).mute :=
  h.mute_report b answer (by rw [hended]) rfl

theorem mute_dropReport (h : Kin k s s') (b : Nat) :
    (s'.dropReport b).mute = (s.dropReport b).mute := by
  rw [dropReport, dropReport, h.waitingIds_eq]

/-- An operation through a handle, which refers to the same buffer in both, or to none. -/
theorem withHandle {handle : Nat} {f f' : Nat → Session × Report} {g : Nat → List Step}
    (h : Kin (k + openings (s.trailVia handle g)) s s')
    (hf : ∀ b, s.bufferOf? handle = some b → Kin (k + openings (g b)) s s' →
      Kin k (f b).1 (f' b).1 ∧ (f' b).2.mute = (f b).2.mute) :
    Kin k (s.withHandle handle f).1 (s'.withHandle handle f').1
      ∧ (s'.withHandle handle f').2.mute = (s.withHandle handle f).2.mute := by
  rw [trailVia] at h
  rw [Session.withHandle, Session.withHandle, h.bufferOf?_eq]
  cases hb : s.bufferOf? handle with
  | none =>
    rw [hb] at h
    exact ⟨h, rfl⟩
  | some b =>
    rw [hb] at h
    exact hf b hb h

/-- One that leaves no trail. -/
theorem withHandle_nil {handle : Nat} {f f' : Nat → Session × Report} (h : Kin k s s')
    (hf : ∀ b, s.bufferOf? handle = some b →
      Kin k (f b).1 (f' b).1 ∧ (f' b).2.mute = (f b).2.mute) :
    Kin k (s.withHandle handle f).1 (s'.withHandle handle f').1
      ∧ (s'.withHandle handle f').2.mute = (s.withHandle handle f).2.mute := by
  refine withHandle (g := fun _ => []) ?_ fun b hb _ => hf b hb
  have hnone : s.trailVia handle (fun _ => []) = [] := by
    rw [trailVia]
    split <;> rfl
  rw [hnone]
  exact h

/-- A change that is over with its first half. -/
theorem startDeadline_whole (h : Kin (k + 1) s s') (b : Nat) {lead : Option Lead}
    (hnot : ∀ a, (s.startDeadline b lead).2.2 ≠ .inFlight a) :
    let out := s.startDeadline b lead
    let out' := s'.startDeadline b lead
    out'.2.2 = out.2.2 ∧ Kin k out.1 out'.1
      ∧ ∀ answer, (out'.1.report (some b) answer out'.2.1 none).mute
        = (out.1.report (some b) answer out.2.1 none).mute := by
  obtain ⟨hfirst, hended, hopenings⟩ := h.startDeadline b lead
  rcases hopenings with ⟨a, a', hopening, -⟩ | ⟨hsame, -⟩
  · exact absurd hopening (hnot a)
  · exact ⟨hsame, hfirst, fun answer => hfirst.mute_report_of_eq _ answer hended⟩

end Kin

end Session

/-! ## Operations -/

mutual

-- on the tree of operations: those inside a change of a deadline are a list of their own

/-- An operation, with all that runs inside it. -/
theorem Op.kin_run (op : Op) {k : Nat} {s s' : Session}
    (h : Session.Kin (k + openings (op.trail s)) s s') :
    Session.Kin k (op.run s).1 (op.run s').1 ∧ (op.run s').2.mute = (op.run s).2.mute := by
  match op with
  | .create handle config =>
    have hkin := h.create config
    refine ⟨hkin, ?_⟩
    show ((s'.create config).1.report (s'.bufferOf? handle)
        (.handle s'.handles.length) {} none).mute
      = ((s.create config).1.report (s.bufferOf? handle) (.handle s.handles.length) {} none).mute
    rw [h.bufferOf?_eq, h.handles]
    exact hkin.mute_report_of_eq _ _ rfl
  | .share handle =>
    refine Session.Kin.withHandle_nil h fun b hb => ?_
    have hkin := h.share (Session.mem_handles_of_bufferOf? hb)
    refine ⟨hkin, ?_⟩
    show ((s'.share b).1.report (some b) (.handle s'.handles.length) {} none).mute
      = ((s.share b).1.report (some b) (.handle s.handles.length) {} none).mute
    rw [h.handles]
    exact hkin.mute_report_of_eq _ _ rfl
  | .drop handle =>
    refine Session.Kin.withHandle_nil h fun b _ => ?_
    have hkin := h.drop handle b
    exact ⟨hkin, hkin.mute_dropReport b⟩
  | .write handle chunk =>
    refine Session.Kin.withHandle h fun b _ h => ?_
    obtain ⟨hkin, hended⟩ := h.write b chunk
    exact ⟨hkin, hkin.mute_report_of_eq _ _ hended⟩
  | .close handle =>
    refine Session.Kin.withHandle h fun b _ h => ?_
    obtain ⟨hkin, hended⟩ := h.close b
    exact ⟨hkin, hkin.mute_report_of_eq _ _ hended⟩
  | .inspect handle =>
    refine Session.Kin.withHandle_nil h fun b _ => ⟨h, ?_⟩
    dsimp only
    rw [h.summary?_eq]
    exact h.mute_report_of_eq _ _ rfl
  | .read handle call =>
    refine Session.Kin.withHandle h fun b hb h => ?_
    obtain ⟨hkin, hended⟩ := h.read hb call
    refine ⟨hkin, ?_⟩
    dsimp only
    rw [hended, h.started]
    exact hkin.mute_report_of_eq _ _ rfl
  | .deadline handle lead during launch =>
    unfold Op.run
    unfold Op.trail at h
    refine Session.Kin.withHandle h fun b _ h => ?_
    dsimp only at h ⊢
    cases hopening : (s.startDeadline b lead).2.2 with
    | complete =>
      rw [hopening] at h
      obtain ⟨hsame, hfirst, hreport⟩ := h.startDeadline_whole b (by rw [hopening]; exact nofun)
      rw [hsame, hopening]
      exact ⟨hfirst, hreport .deadlineSet⟩
    | badThreadName =>
      rw [hopening] at h
      obtain ⟨hsame, hfirst, hreport⟩ := h.startDeadline_whole b (by rw [hopening]; exact nofun)
      rw [hsame, hopening]
      exact ⟨hfirst, hreport .badThreadName⟩
    | inFlight a =>
      rw [hopening] at h
      -- the first half opens one generation, and the second half none
      have hcount : openings (.on b (.startDeadline lead)
          :: (Op.trailAll during (s.startDeadline b lead).1 ++ [.on b (.finishDeadline launch)]))
          = 1 + (openings (Op.trailAll during (s.startDeadline b lead).1) + 0) :=
        (openings_append [_] _).trans (congrArg (1 + ·) (openings_append _ [_]))
      dsimp only at h
      rw [hcount, Nat.add_zero, Nat.add_comm 1, ← Nat.add_assoc] at h
      obtain ⟨hfirst, hended, hopenings⟩ := h.startDeadline b lead
      rcases hopenings with ⟨x, a', hx, hopening', harmings, harmings'⟩ | ⟨-, hnot⟩
      · obtain rfl : a = x := Session.Opening.inFlight.inj (hopening.symm.trans hx)
        rw [hopening']
        dsimp only
        obtain ⟨hinside, hreports⟩ := Op.kin_runAll during hfirst
        -- the change is in flight still, and the innermost one
        have ha := (Op.armings_runAll during (s.startDeadline b lead).1).trans harmings
        have ha' := (Op.armings_runAll during (s'.startDeadline b lead).1).trans harmings'
        obtain ⟨hsecond, hended'⟩ := hinside.finishDeadline ha ha' launch
        refine ⟨hsecond.retire b, hsecond.mute_report _ _ ?_ (congrArg some hreports)⟩
        simp only [Effects.ended_append, hended, hended']
      · exact absurd hopening (hnot a)
  | .elapse handle =>
    obtain ⟨hkin, hended⟩ := Session.Kin.elapse h
    refine ⟨hkin, ?_⟩
    show (s'.elapse.1.report (s'.bufferOf? handle) .done s'.elapse.2 none).mute
      = (s.elapse.1.report (s.bufferOf? handle) .done s.elapse.2 none).mute
    rw [h.bufferOf?_eq]
    exact hkin.mute_report _ _ (mergeSort_eq_of_perm hended h.regular.nodup_endedIds_elapse) rfl

/-- Operations one after the other. -/
theorem Op.kin_runAll (ops : List Op) {k : Nat} {s s' : Session}
    (h : Session.Kin (k + openings (Op.trailAll ops s)) s s') :
    Session.Kin k (Op.runAll ops s).1 (Op.runAll ops s').1
      ∧ Report.muteAll (Op.runAll ops s').2 = Report.muteAll (Op.runAll ops s).2 := by
  match ops with
  | [] => exact ⟨h, rfl⟩
  | op :: rest =>
    rw [Op.trailAll, openings_append, Nat.add_comm (openings _), ← Nat.add_assoc] at h
    obtain ⟨hfirst, hreport⟩ := Op.kin_run op h
    obtain ⟨hrest, hreports⟩ := Op.kin_runAll rest hfirst
    refine ⟨hrest, ?_⟩
    show (op.run s').2.mute :: Report.muteAll (Op.runAll rest (op.run s').1).2
      = (op.run s).2.mute :: Report.muteAll (Op.runAll rest (op.run s).1).2
    rw [hreport, hreports]

end

end StreamBuffer
