/-
  StreamBuffer.Proofs.Session.Kinship

  Sessions that differ in generations and timers only.

  Two sessions are kin (`Session.Kin`) if they have the same handles and calls, changes in flight
  on the same buffers in the same order, and views that are alike, buffer by buffer. Then the
  same waits in both, in the same order, and the same summaries are shown.

  Each transition keeps sessions kin and ends the same calls in the same way, and each operation
  with all that runs inside it is reported on alike, but for the events (`Op.kin_run`), as long
  as no more generations are opened than the kinship allows for.
-/
import StreamBuffer.Proofs.Session.Repeating
import StreamBuffer.Proofs.Session.Tracking
import Mathlib.Data.List.Perm.Basic

namespace StreamBuffer

/-! ## How a change begins -/

/-- What the first half of a change leads to that does not put itself in flight. -/
def View.grounded (v : View) (lead : Option Lead) : Session.Opening :=
  if v.buffer.isSome = true ∧ (lead.any fun l => !(l.instant 0).hasCome 0) = true then
    .badThreadName
  else .complete

theorem View.grounded_ne (v : View) (lead : Option Lead) (a : Arming) :
    v.grounded lead ≠ .inFlight a := by
  rw [grounded]
  split <;> exact nofun

namespace Session

theorem startDeadline_opening (s : Session) (b : Nat) (lead : Option Lead) :
    let out := s.startDeadline b lead
    ((s.view b).flies lead = true
        ∧ ∃ a, a.buffer = b ∧ out.2.2 = .inFlight a ∧ out.1.armings = a :: s.armings)
      ∨ ((s.view b).flies lead = false ∧ out.2.2 = (s.view b).grounded lead
        ∧ out.1.armings = s.armings) := by
  let first := s.onBuffer b (·.startDeadline s.now (lead.map (Lead.instant s.now)))
  have harmings : first.1.armings = s.armings := s.armings_onBuffer b _
  have hnow : first.1.now = s.now := s.now_onBuffer b _
  unfold startDeadline
  dsimp only
  rw [show s.onBuffer b (·.startDeadline s.now (lead.map (Lead.instant s.now))) = first from rfl,
    hnow]
  cases hb : s.buffers[b]? with
  | none =>
    have hfirst : first.1.buffers[b]? = none := by
      show (s.onBuffer b _).1.buffers[b]? = none
      rw [onBuffer_of_none hb, hb]
    rw [hfirst]
    have hnone := (view_of_none hb).1
    refine Or.inr ⟨?_, ?_, harmings⟩
    · rw [View.flies, hnone]
      rfl
    · rw [View.grounded, hnone]
      rfl
  | some buffer =>
    have hfirst : first.1.buffers[b]?
        = some (buffer.startDeadline s.now (lead.map (Lead.instant s.now))).1 :=
      getElem?_onBuffer_self hb _
    rw [hfirst, View.flies, View.grounded, buffer_view hb]
    cases lead with
    | none => exact Or.inr ⟨Bool.and_false _, rfl, harmings⟩
    | some l =>
      have hname : (buffer.startDeadline s.now (some (l.instant s.now))).1.threadName
          = buffer.untimed.threadName :=
        buffer.threadName_act (.startDeadline s.now (some (l.instant s.now)))
      simp only [Option.map_some, Option.any_some, hname, l.hasCome_instant s.now,
        Option.isSome_some, true_and]
      cases (l.instant 0).hasCome 0 with
      | true => exact Or.inr ⟨Bool.and_false _, rfl, harmings⟩
      | false =>
        cases isThreadName buffer.untimed.threadName with
        | false => exact Or.inr ⟨rfl, rfl, harmings⟩
        | true => exact Or.inl ⟨rfl, _, rfl, rfl, congrArg (_ :: ·) harmings⟩

end Session

/-! ## Kinship -/

theorem Deed.renumber_id (d : Deed) : d.renumber id = d := by
  cases d <;> rfl

namespace View.Alike

variable {ρ : Nat → Nat} {k : Nat} {v v' : View}

theorem flies_eq (h : Alike ρ k v v') (lead : Option Lead) : v'.flies lead = v.flies lead := by
  obtain ⟨g, timer, hbuffer⟩ := h.buffer
  rw [flies, flies, hbuffer, Option.map_map]
  rfl

theorem grounded_eq (h : Alike ρ k v v') (lead : Option Lead) :
    v'.grounded lead = v.grounded lead := by
  rw [grounded, grounded, h.isSome_eq]

end View.Alike

namespace Session

/-- The sessions have the same handles and calls, changes in flight on the same buffers, and
    views that are alike for as long as no more than `k` generations are opened. -/
structure Kin (k : Nat) (s s' : Session) : Prop where
  regular : s.Regular
  regular' : s'.Regular
  handles : s'.handles = s.handles
  started : s'.started = s.started
  armings : s'.armings.map Arming.buffer = s.armings.map Arming.buffer
  views : ∀ b, View.Alike id k (s.view b) (s'.view b)

/-- No call ends twice with one tick. -/
theorem Regular.nodup_endedIds_elapse {s : Session} (h : s.Regular) :
    (Buffer.endedIds s.elapse.2.ended).Nodup :=
  (List.nodup_append.mp (h.nodup_acts (k := 0) (acts_elapse s) rfl).1).1

theorem Regular.nodup_ended_elapse {s : Session} (h : s.Regular) : s.elapse.2.ended.Nodup :=
  List.Nodup.of_map Prod.fst h.nodup_endedIds_elapse

namespace Kin

variable {k : Nat} {s s' t t' : Session}

theorem refl (k : Nat) (h : s.Regular) : Kin k s s :=
  ⟨h, h, rfl, rfl, rfl, fun b => .refl k (s.view b)⟩

/-! ### What shows -/

theorem bufferOf?_eq (h : Kin k s s') (i : Nat) : s'.bufferOf? i = s.bufferOf? i := by
  rw [bufferOf?, bufferOf?, h.handles]

theorem waitingIds_eq (h : Kin k s s') (b : Nat) : s'.waitingIds b = s.waitingIds b := by
  rw [← waitingIds_view, ← waitingIds_view, (h.views b).waitingIds_eq, List.map_id]

theorem summary?_eq (h : Kin k s s') (b : Nat) : s'.summary? b = s.summary? b := by
  rw [h.regular'.tended.summary?_eq, h.regular.tended.summary?_eq, (h.views b).summary?_eq]

theorem isAlive_eq (h : Kin k s s') (b : Nat) : s'.isAlive b = s.isAlive b := by
  have hany : ∀ u : Session, u.armings.any (fun a => a.buffer == b)
      = (u.armings.map Arming.buffer).any (· == b) := fun u => by rw [List.any_map]; rfl
  rw [isAlive, isAlive, h.handles, hany, hany, h.armings, h.waitingIds_eq]

/-- There are as many buffers in both. -/
theorem length_eq (h : Kin k s s') : s'.buffers.length = s.buffers.length := by
  have hiff : ∀ b, b < s'.buffers.length ↔ b < s.buffers.length := by
    intro b
    have hsome := (h.views b).isSome_eq
    rw [view, view, Option.isSome_map, Option.isSome_map, Bool.eq_iff_iff] at hsome
    simpa using hsome
  have hle := hiff s.buffers.length
  have hge := hiff s'.buffers.length
  omega

/-! ### Transitions -/

/-- The same deed is done in both. -/
theorem of_does {b : Nat} {d : Deed} {ended ended' : List (Nat × Outcome)}
    (h : Kin (k + d.opens) s s') (hdoes : s.Does b d t ended) (hdoes' : s'.Does b d t' ended')
    (hregular : t.Regular) (hregular' : t'.Regular) (hhandles : t'.handles = t.handles)
    (hstarted : t'.started = t.started)
    (harmings : t'.armings.map Arming.buffer = t.armings.map Arming.buffer) :
    Kin k t t' ∧ ended' = ended := by
  obtain ⟨halike, hended⟩ := (h.views b).act (d := d)
  rw [d.renumber_id, ← hdoes.here, ← hdoes'.here] at halike hended
  refine ⟨⟨hregular, hregular', hhandles, hstarted, harmings, fun c => ?_⟩, ?_⟩
  · by_cases hc : c = b
    · rw [hc]
      exact halike
    · rw [hdoes.elsewhere c hc, hdoes'.elsewhere c hc]
      exact (h.views c).mono
  · exact hended.trans (Buffer.renumberEnded_id ended)

theorem create (h : Kin k s s') (c : Config) : Kin k (s.create c).1 (s'.create c).1 := by
  have hdoes' := does_create h.regular'.armings c
  rw [h.length_eq] at hdoes'
  refine (of_does (d := .create c) h (does_create h.regular.armings c) hdoes'
    (h.regular.create c) (h.regular'.create c) ?_ h.started h.armings).1
  show s'.handles ++ [some s'.buffers.length] = s.handles ++ [some s.buffers.length]
  rw [h.handles, h.length_eq]

/-- Handles come and go, and nothing is done to buffers. -/
theorem of_handles {handles handles' : List (Option Nat)} (h : Kin k s s')
    (hhandles : handles' = handles) (hregular : ({ s with handles } : Session).Regular)
    (hregular' : ({ s' with handles := handles' } : Session).Regular) :
    Kin k { s with handles } { s' with handles := handles' } :=
  ⟨hregular, hregular', hhandles, h.started, h.armings, h.views⟩

theorem retire (h : Kin k s s') (b : Nat) : Kin k (s.retire b) (s'.retire b) := by
  refine ⟨h.regular.retire b, h.regular'.retire b, ?_, ?_, ?_, fun c => ?_⟩
  · rw [handles_retire, handles_retire, h.handles]
  · rw [started_retire, started_retire, h.started]
  · rw [armings_retire, armings_retire, h.armings]
  · rw [view_retire, view_retire, h.isAlive_eq]
    split
    · exact (h.views c).disarm
    · exact h.views c

theorem share (h : Kin k s s') {b : Nat} (hb : some b ∈ s.handles) :
    Kin k (s.share b).1 (s'.share b).1 := by
  have hb' : some b ∈ s'.handles := by rw [h.handles]; exact hb
  exact h.of_handles (by rw [h.handles]) (h.regular.share hb) (h.regular'.share hb')

theorem drop (h : Kin k s s') (i b : Nat) : Kin k (s.drop i b) (s'.drop i b) :=
  (h.of_handles (by rw [h.handles]) (h.regular.release i) (h.regular'.release i)).retire b

/-- An action on a buffer, other than that a timer is taken. -/
theorem onBuffer {b : Nat} {d : Deed} {a : Buffer.Action} (h : Kin (k + d.opens) s s')
    (htakes : a.takes = false) (hbegun : a.begun = [])
    (hdoes : ∀ u : Session,
      u.Does b d (u.onBuffer b (·.act a)).1 (u.onBuffer b (·.act a)).2.ended) :
    Kin k (s.onBuffer b (·.act a)).1 (s'.onBuffer b (·.act a)).1
      ∧ (s'.onBuffer b (·.act a)).2.ended = (s.onBuffer b (·.act a)).2.ended := by
  refine of_does h (hdoes s) (hdoes s') (h.regular.onBuffer b htakes hbegun)
    (h.regular'.onBuffer b htakes hbegun) ?_ ?_ ?_
  · rw [handles_onBuffer, handles_onBuffer, h.handles]
  · rw [started_onBuffer, started_onBuffer, h.started]
  · rw [armings_onBuffer, armings_onBuffer, h.armings]

theorem write (h : Kin k s s') (b : Nat) (chunk : Bytes) :
    Kin k (s.write b chunk).1 (s'.write b chunk).1
      ∧ (s'.write b chunk).2.ended = (s.write b chunk).2.ended :=
  h.onBuffer (d := .write chunk) (a := .write chunk) rfl rfl fun u => u.does_write b chunk

theorem close (h : Kin (k + 1) s s') (b : Nat) :
    Kin k (s.close b).1 (s'.close b).1 ∧ (s'.close b).2.ended = (s.close b).2.ended :=
  h.onBuffer (d := .close) (a := .close) rfl rfl fun u => u.does_close b

theorem read (h : Kin k s s') {handle b : Nat} (hb : s.bufferOf? handle = some b) (call : Call) :
    Kin k (s.read b call).1 (s'.read b call).1
      ∧ (s'.read b call).2.ended = (s.read b call).2.ended := by
  obtain ⟨buffer, hbuffer⟩ := h.regular.exists_buffer hb
  obtain ⟨buffer', hbuffer'⟩ := h.regular'.exists_buffer ((h.bufferOf?_eq handle).trans hb)
  have hdoes' := s'.does_read b call
  rw [h.started] at hdoes'
  refine of_does (d := .read s.started call) h (s.does_read b call) hdoes'
    (h.regular.read hbuffer call) (h.regular'.read hbuffer' call) ?_ ?_ ?_
  · have hsame : ∀ u : Session, (u.read b call).1.handles = u.handles := fun u =>
      handles_onBuffer _ b _
    rw [hsame, hsame, h.handles]
  · rw [started_read, started_read, h.started]
  · have hsame : ∀ u : Session, (u.read b call).1.armings = u.armings := fun u =>
      armings_onBuffer _ b _
    rw [hsame, hsame, h.armings]

/-- The first half of a change, which puts itself in flight in both or in neither. -/
theorem startDeadline (h : Kin (k + 1) s s') (b : Nat) (lead : Option Lead) :
    let out := s.startDeadline b lead
    let out' := s'.startDeadline b lead
    Kin k out.1 out'.1 ∧ out'.2.1.ended = out.2.1.ended
      ∧ ((∃ a a', out.2.2 = .inFlight a ∧ out'.2.2 = .inFlight a'
            ∧ out.1.armings = a :: s.armings ∧ out'.1.armings = a' :: s'.armings)
        ∨ (out'.2.2 = out.2.2 ∧ ∀ a, out.2.2 ≠ .inFlight a)) := by
  intro out out'
  have hflies := (h.views b).flies_eq lead
  have hkin : ∀ (_ : out'.1.armings.map Arming.buffer = out.1.armings.map Arming.buffer),
      Kin k out.1 out'.1 ∧ out'.2.1.ended = out.2.1.ended := fun harmings =>
    of_does (d := .startDeadline lead) h (s.does_startDeadline b lead)
      (s'.does_startDeadline b lead) (h.regular.startDeadline b lead)
      (h.regular'.startDeadline b lead)
      (by rw [handles_startDeadline, handles_startDeadline, h.handles])
      (by rw [started_startDeadline, started_startDeadline, h.started]) harmings
  rcases s.startDeadline_opening b lead with ⟨hfly, a, hab, hopening, harmings⟩
    | ⟨hnot, hopening, harmings⟩
  · rcases s'.startDeadline_opening b lead with ⟨-, a', hab', hopening', harmings'⟩ | ⟨hnot', -⟩
    · obtain ⟨hboth, hended⟩ := hkin (by
        rw [harmings, harmings', List.map_cons, List.map_cons, hab, hab', h.armings])
      exact ⟨hboth, hended, Or.inl ⟨a, a', hopening, hopening', harmings, harmings'⟩⟩
    · rw [hflies, hfly] at hnot'
      cases hnot'
  · rcases s'.startDeadline_opening b lead with ⟨hfly', -⟩ | ⟨-, hopening', harmings'⟩
    · rw [hflies, hnot] at hfly'
      cases hfly'
    · obtain ⟨hboth, hended⟩ := hkin (by rw [harmings, harmings', h.armings])
      refine ⟨hboth, hended, Or.inr ⟨?_, fun a ha => ?_⟩⟩
      · rw [hopening, hopening', (h.views b).grounded_eq lead]
      · exact (s.view b).grounded_ne lead a (hopening.symm.trans ha)

/-- The second half of the innermost change. -/
theorem finishDeadline (h : Kin k s s') {a a' : Arming} {rest rest' : List Arming}
    (harmings : s.armings = a :: rest) (harmings' : s'.armings = a' :: rest') (launch : Launch) :
    Kin k (s.finishDeadline a launch).1 (s'.finishDeadline a' launch).1
      ∧ (s'.finishDeadline a' launch).2.ended = (s.finishDeadline a launch).2.ended := by
  have hsame := h.armings
  rw [harmings, harmings', List.map_cons, List.map_cons, List.cons.injEq] at hsame
  have hdoes' := does_finishDeadline h.regular'.tended harmings' launch
  rw [hsame.1] at hdoes'
  refine of_does (d := .finishDeadline launch) h
    (does_finishDeadline h.regular.tended harmings launch) hdoes'
    (h.regular.finishDeadline (by rw [harmings]; exact List.mem_cons_self) launch)
    (h.regular'.finishDeadline (by rw [harmings']; exact List.mem_cons_self) launch) ?_ ?_ ?_
  · rw [handles_finishDeadline, handles_finishDeadline, h.handles]
  · rw [started_finishDeadline, started_finishDeadline, h.started]
  · rw [armings_finishDeadline, armings_finishDeadline, harmings, harmings',
      List.erase_cons_head, List.erase_cons_head, hsame.2]

/-- Time passes in both. The timers may go off in another order. -/
theorem elapse (h : Kin k s s') :
    Kin k s.elapse.1 s'.elapse.1 ∧ s'.elapse.2.ended.Perm s.elapse.2.ended := by
  have hview : ∀ {u : Session}, u.Regular → ∀ b, u.elapse.1.view b = (u.view b).elapse.1 :=
    fun hu b => view_elapseIn hu.tended (List.Perm.refl _) b
  have harmings : ∀ u : Session, u.elapse.1.armings = u.armings := fun _ =>
    armings_wakeAlarms _ _ _
  have hstarted : ∀ u : Session, u.elapse.1.started = u.started := fun _ =>
    started_wakeAlarms _ _ _
  refine ⟨⟨h.regular.elapse, h.regular'.elapse, ?_, ?_, ?_, fun b => ?_⟩, ?_⟩
  · rw [handles_elapse, handles_elapse, h.handles]
  · rw [hstarted, hstarted, h.started]
  · rw [harmings, harmings, h.armings]
  · rw [hview h.regular, hview h.regular']
    exact (h.views b).elapse.1
  · refine (List.perm_ext_iff_of_nodup h.regular'.nodup_ended_elapse
      h.regular.nodup_ended_elapse).mpr ?_
    rintro ⟨i, o⟩
    have hmem : ∀ {u : Session}, u.Regular →
        ((i, o) ∈ u.elapse.2.ended ↔ ∃ b, (i, o) ∈ (u.view b).elapse.2) :=
      fun hu => mem_ended_elapseIn hu.tended (List.Perm.refl _) i o
    rw [hmem h.regular, hmem h.regular']
    refine exists_congr fun b => ?_
    rw [(h.views b).elapse.2, Buffer.renumberEnded_id]

end Kin

end Session

end StreamBuffer
