/-
  StreamBuffer.Proofs.Session.Recording

  The records of a session's buffers.

  Every buffer has a record of its own, made with it, and a record is only ever added to:
  whoever takes a turn, the records before it are where they were, each with what was
  recorded since behind it (`Turn.grows`). So no event is lost, for want of a record or
  later on, up to whatever boundary between steps (`Boundary.grows`).
-/
import StreamBuffer.Proofs.Session.Alarms
import StreamBuffer.Proofs.Session.Turn

namespace StreamBuffer

namespace Session

/-- From `s` to `t` no event was lost: if every buffer had a record it still does, and each
    record begins as it was. -/
structure Grows (s t : Session) : Prop where
  length_eq : s.records.length = s.buffers.length → t.records.length = t.buffers.length
  kept : ∀ {b : Nat} {record : List Event}, s.records[b]? = some record →
    ∃ more, t.records[b]? = some (record ++ more)

namespace Grows

variable {s t u : Session}

theorem of_eq (hbuffers : t.buffers = s.buffers) (hrecords : t.records = s.records) :
    s.Grows t := by
  refine ⟨fun h => ?_, fun {b record} h => ⟨[], ?_⟩⟩
  · rw [hbuffers, hrecords, h]
  · rw [hrecords, h, List.append_nil]

theorem refl (s : Session) : s.Grows s := .of_eq rfl rfl

theorem trans (h₁ : s.Grows t) (h₂ : t.Grows u) : s.Grows u := by
  refine ⟨fun h => h₂.length_eq (h₁.length_eq h), fun {b record} h => ?_⟩
  obtain ⟨first, hfirst⟩ := h₁.kept h
  obtain ⟨second, hsecond⟩ := h₂.kept hfirst
  exact ⟨first ++ second, by rw [hsecond, List.append_assoc]⟩

/-! ## Transitions -/

/-- An operation adds to the record of its buffer, and to no other. -/
theorem onBuffer (s : Session) (b : Nat) (f : Buffer → Buffer × Effects) :
    s.Grows (s.onBuffer b f).1 := by
  cases hb : s.buffers[b]? with
  | none =>
    rw [onBuffer_of_none hb]
    exact .refl s
  | some buffer =>
    refine ⟨fun h => ?_, fun {c record} h => ?_⟩
    · rw [records_onBuffer hb, buffers_onBuffer hb, List.length_modify, List.length_set, h]
    · rw [records_onBuffer hb, List.getElem?_modify, h]
      by_cases hc : b = c
      · exact ⟨(f buffer).2.events, by simp [hc]⟩
      · exact ⟨[], by simp [hc]⟩

theorem retire (s : Session) (b : Nat) : s.Grows (s.retire b) := by
  rw [Session.retire]
  split
  · exact .refl s
  · exact .onBuffer s b _

theorem create (s : Session) (c : Config) : s.Grows (s.create c).1 := by
  refine ⟨fun h => ?_, fun {b record} h => ⟨[], ?_⟩⟩
  · show (s.records ++ [[]]).length = (s.buffers ++ [Buffer.ofConfig c]).length
    rw [List.length_append, List.length_append, h]
    rfl
  · show (s.records ++ [[]])[b]? = some (record ++ [])
    rw [List.getElem?_append_left (List.getElem?_eq_some_iff.mp h).1, h, List.append_nil]

/-- A thread that wakes has at most its callback to record. -/
theorem wakeAlarm (s : Session) (reading i : Nat) : s.Grows (s.wakeAlarm reading i).1 := by
  rw [Session.wakeAlarm]
  split
  · exact .refl s
  · rename_i a _
    dsimp only
    split
    · let woken : Session :=
        { s with alarms := s.alarms.set i { a with timer := a.timer.wake reading } }
      have hwoken : s.Grows woken := .of_eq rfl rfl
      have hfire := Grows.onBuffer woken a.buffer (·.fire a.generation)
      exact (hwoken.trans hfire).trans (.of_eq rfl rfl)
    · exact .of_eq rfl rfl
    · exact .of_eq rfl rfl

theorem startDeadline (s : Session) (b : Nat) (lead : Option Lead) :
    s.Grows (s.startDeadline b lead).1 := by
  have hfirst := Grows.onBuffer s b (·.startDeadline s.now (lead.map (Lead.instant s.now)))
  have hcases := s.startDeadline_cases b lead
  dsimp only at hcases
  rcases hcases with ⟨hwhole, -⟩ | ⟨a, -, -, -, -, hinFlight, -⟩
  · rw [hwhole]
    exact hfirst
  · rw [hinFlight]
    exact hfirst.trans (.of_eq rfl rfl)

theorem drop (s : Session) (handle b : Nat) : s.Grows (s.drop handle b) := by
  let dropped : Session := { s with handles := s.handles.set handle none }
  have hdropped : s.Grows dropped := .of_eq rfl rfl
  exact hdropped.trans (.retire dropped b)

theorem read (s : Session) (b : Nat) (call : Call) : s.Grows (s.read b call).1 := by
  let counted : Session := { s with started := s.started + 1 }
  have hcounted : s.Grows counted := .of_eq rfl rfl
  exact hcounted.trans (.onBuffer counted b _)

theorem conclude (s : Session) (a : Arming) (f : Buffer → Buffer × Effects) :
    s.Grows (s.conclude a f) := by
  let last : Session := (s.onBuffer a.buffer f).1
  let landed : Session := { last with armings := last.armings.erase a }
  have hlanded : last.Grows landed := .of_eq rfl rfl
  exact ((Grows.onBuffer s a.buffer f).trans hlanded).trans (.retire landed a.buffer)

end Grows

/-! ## Runs -/

/-- Whoever takes a turn only adds to the records. -/
theorem Turn.grows {p q : Point} (h : Turn p q) : p.session.Grows q.session := by
  cases h with
  | create s l n c => exact .create s c
  | share l n hb => exact .of_eq rfl rfl
  | @drop s handle b l n hb => exact .drop s handle b
  | write l n hb chunk => exact .onBuffer _ _ _
  | @read s b l n hb call => exact .read s b call
  | close l n hb => exact .onBuffer _ _ _
  | startDeadline l n hb lead => exact .startDeadline _ _ lead
  | startThread n ha hnew => exact .of_eq rfl rfl
  | refuse n ha hnew => exact .conclude _ _ _
  | handOver s n ha => exact .conclude s _ _
  | wake s l n reading i => exact .wakeAlarm s reading i
  | tick s l n => exact .of_eq rfl rfl

theorem Turns.grows {p q : Point} (h : Turns p q) : p.session.Grows q.session := by
  induction h with
  | refl => exact .refl _
  | tail _ hturn ih => exact ih.trans hturn.grows

/-- Up to every boundary no event is lost, also inside a change of a deadline. -/
theorem Boundary.grows {s t : Session} {ops : List Op} {seen : List Report}
    {underway : List (Nat × Outcome)} (h : Boundary s ops seen underway t) : s.Grows t := by
  obtain ⟨m, -, hturns⟩ := h.ways 0
  exact Turns.grows hturns

/-- At every boundary each buffer has its record. -/
theorem Boundary.length_records {c : Config} {t : Session} {ops : List Op} {seen : List Report}
    {underway : List (Nat × Outcome)}
    (h : Boundary (({} : Session).create c).1 ops seen underway t) :
    t.records.length = t.buffers.length :=
  h.grows.length_eq rfl

end Session

end StreamBuffer
