/-
  StreamBuffer.Proofs.Session.Turn

  A session whose parties take turns in any order.

  What runs inside a change of a deadline is over before its second half, and the timers
  wake one after the other, when time passes. Here none of this is asked for. A turn is one
  critical section of some party, or one wake-up of one timer's thread, and whichever turn
  is possible may be next (`Turn`): changes of deadlines overlap in any way, the thread of
  each timer wakes as often and as late as one likes, and other turns may come between the
  start of a timer and the moment at which it is handed to its buffer.

  An operation with all that runs inside it is a sequence of turns (`Op.ways_run`), and so
  is the way to every boundary between steps (`Boundary.ways`).
-/
import StreamBuffer.Proofs.Session.Boundary
import Mathlib.Logic.Relation

namespace StreamBuffer

/-- The timer that is started for a change of a deadline, as its thread finds it. -/
def Arming.alarm (a : Arming) : Alarm where
  timer := { deadline := a.deadline }
  buffer := a.buffer
  generation := a.generation

namespace Session

/-! ## Turns -/

/-- Start the thread of the timer for a change of a deadline. -/
def startThread (s : Session) (a : Arming) : Session :=
  { s with alarms := s.alarms ++ [a.alarm] }

/-- The caller of a change of a deadline returns, and holds on to the buffer no more. -/
def leave (s : Session) (a : Arming) : Session :=
  { s with armings := s.armings.erase a }.retire a.buffer

/-- The end of a change of a deadline; `f` is what its second half does to the buffer. -/
def conclude (s : Session) (a : Arming) (f : Buffer → Buffer × Effects) : Session :=
  (s.onBuffer a.buffer f).1.leave a

/-- A session between two turns. `adrift` are the timers, by number, whose thread was
    started and that are still to be handed to their buffer, each with its change of the
    deadline; `opened` is how often a generation was opened so far. -/
structure Point where
  session : Session
  adrift : List (Arming × Nat) := []
  opened : Nat := 0

/-- A session with one buffer, before the first turn. -/
def Point.start (c : Config) : Point where
  session := (({} : Session).create c).1

/-- One turn. Calls on a buffer need a handle to it; the thread for a change in flight is
    started once, or refused; a timer is handed over by who started it. -/
inductive Turn : Point → Point → Prop where
  | create (s : Session) (l : List (Arming × Nat)) (n : Nat) (c : Config) :
      Turn ⟨s, l, n⟩ ⟨(s.create c).1, l, n⟩
  | share {s : Session} {b : Nat} (l : List (Arming × Nat)) (n : Nat)
      (hb : some b ∈ s.handles) : Turn ⟨s, l, n⟩ ⟨(s.share b).1, l, n⟩
  | drop {s : Session} {h b : Nat} (l : List (Arming × Nat)) (n : Nat)
      (hb : s.bufferOf? h = some b) : Turn ⟨s, l, n⟩ ⟨s.drop h b, l, n⟩
  | write {s : Session} {b : Nat} (l : List (Arming × Nat)) (n : Nat)
      (hb : some b ∈ s.handles) (chunk : Bytes) : Turn ⟨s, l, n⟩ ⟨(s.write b chunk).1, l, n⟩
  | read {s : Session} {b : Nat} (l : List (Arming × Nat)) (n : Nat)
      (hb : some b ∈ s.handles) (call : Call) : Turn ⟨s, l, n⟩ ⟨(s.read b call).1, l, n⟩
  | close {s : Session} {b : Nat} (l : List (Arming × Nat)) (n : Nat)
      (hb : some b ∈ s.handles) : Turn ⟨s, l, n⟩ ⟨(s.close b).1, l, n + 1⟩
  | startDeadline {s : Session} {b : Nat} (l : List (Arming × Nat)) (n : Nat)
      (hb : some b ∈ s.handles) (lead : Option Lead) :
      Turn ⟨s, l, n⟩ ⟨(s.startDeadline b lead).1, l, n + 1⟩
  | startThread {s : Session} {l : List (Arming × Nat)} {a : Arming} (n : Nat)
      (ha : a ∈ s.armings) (hnew : ∀ i, (a, i) ∉ l) :
      Turn ⟨s, l, n⟩ ⟨s.startThread a, (a, s.alarms.length) :: l, n⟩
  | refuse {s : Session} {l : List (Arming × Nat)} {a : Arming} (n : Nat)
      (ha : a ∈ s.armings) (hnew : ∀ i, (a, i) ∉ l) :
      Turn ⟨s, l, n⟩ ⟨s.conclude a (·.startRefused a.generation), l, n⟩
  | handOver {l : List (Arming × Nat)} {a : Arming} {i : Nat} (s : Session) (n : Nat)
      (ha : (a, i) ∈ l) :
      Turn ⟨s, l, n⟩ ⟨s.conclude a (·.install a.generation i), l.erase (a, i), n⟩
  | wake (s : Session) (l : List (Arming × Nat)) (n reading i : Nat) :
      Turn ⟨s, l, n⟩ ⟨(s.wakeAlarm reading i).1, l, n⟩
  | tick (s : Session) (l : List (Arming × Nat)) (n : Nat) :
      Turn ⟨s, l, n⟩ ⟨{ s with now := s.now + 1 }, l, n⟩

/-- Turns one after the other. -/
def Turns : Point → Point → Prop := Relation.ReflTransGen Turn

/-- From `s` to `t` there is a way by turns that opens no more than `k` generations, and
    at both ends every timer is handed over. -/
def Ways (s : Session) (k : Nat) (t : Session) : Prop :=
  ∀ n, ∃ m ≤ n + k, Turns ⟨s, [], n⟩ ⟨t, [], m⟩

theorem Ways.refl (s : Session) (k : Nat) : s.Ways k s := fun n => ⟨n, by omega, .refl⟩

theorem Ways.trans {s t u : Session} {j k : Nat} (h₁ : s.Ways j t) (h₂ : t.Ways k u) :
    s.Ways (j + k) u := by
  intro n
  obtain ⟨m, hm, hfirst⟩ := h₁ n
  obtain ⟨m', hm', hsecond⟩ := h₂ m
  exact ⟨m', by omega, hfirst.trans hsecond⟩

/-- A turn that opens no generation. -/
theorem Ways.of_turn {s t : Session} (h : ∀ n, Turn ⟨s, [], n⟩ ⟨t, [], n⟩) : s.Ways 0 t :=
  fun n => ⟨n, by omega, .single (h n)⟩

/-- A turn that opens one. -/
theorem Ways.of_opening {s t : Session} (h : ∀ n, Turn ⟨s, [], n⟩ ⟨t, [], n + 1⟩) :
    s.Ways 1 t :=
  fun n => ⟨n + 1, by omega, .single (h n)⟩

/-! ## Changes in flight -/

theorem armings_onBuffer (s : Session) (b : Nat) (f : Buffer → Buffer × Effects) :
    (s.onBuffer b f).1.armings = s.armings := by
  obtain ⟨buffers, alarms, records, h⟩ := onBuffer_eq s b f
  rw [h]

theorem handles_onBuffer (s : Session) (b : Nat) (f : Buffer → Buffer × Effects) :
    (s.onBuffer b f).1.handles = s.handles := by
  obtain ⟨buffers, alarms, records, h⟩ := onBuffer_eq s b f
  rw [h]

theorem armings_retire (s : Session) (b : Nat) : (s.retire b).armings = s.armings := by
  rw [retire]
  split
  · rfl
  · exact armings_onBuffer s b _

theorem armings_wakeAlarm (s : Session) (reading i : Nat) :
    (s.wakeAlarm reading i).1.armings = s.armings := by
  rw [wakeAlarm]
  split
  · rfl
  · dsimp only
    split
    · exact armings_onBuffer _ _ _
    · rfl
    · rfl

theorem armings_wakeAlarms (s : Session) (reading : Nat) (ids : List Nat) :
    (s.wakeAlarms reading ids).1.armings = s.armings := by
  induction ids generalizing s with
  | nil => rfl
  | cons i rest ih => exact (ih (s.wakeAlarm reading i).1).trans (armings_wakeAlarm s reading i)

/-- The first half of a change is all there is to it, or it leaves a change in flight for
    the generation that it opened. -/
theorem startDeadline_cases (s : Session) (b : Nat) (lead : Option Lead) :
    let first := (s.onBuffer b (·.startDeadline s.now (lead.map (Lead.instant s.now)))).1
    ((s.startDeadline b lead).1 = first ∧ ∀ a, (s.startDeadline b lead).2.2 ≠ .inFlight a)
      ∨ ∃ a buffer, first.buffers[b]? = some buffer ∧ a.buffer = b
          ∧ a.generation = buffer.state.generation
          ∧ (s.startDeadline b lead).1 = { first with armings := a :: first.armings }
          ∧ (s.startDeadline b lead).2.2 = .inFlight a := by
  dsimp only
  rw [startDeadline]
  dsimp only
  split
  · rename_i buffer deadline hbuffer hdeadline
    split
    · exact Or.inl ⟨rfl, fun a h => by cases h⟩
    · split
      · exact Or.inl ⟨rfl, fun a h => by cases h⟩
      · exact Or.inr ⟨_, buffer, hbuffer, rfl, rfl, rfl, rfl⟩
  · exact Or.inl ⟨rfl, fun a h => by cases h⟩

/-- The second half takes its own change out of those in flight. -/
theorem armings_finishDeadline (s : Session) (a : Arming) (launch : Launch) :
    (s.finishDeadline a launch).1.armings = s.armings.erase a := by
  have hlaunch : ∀ reading, (s.launch a reading).1.armings = s.armings := fun reading =>
    (armings_onBuffer _ _ _).trans (armings_wakeAlarm _ _ _)
  cases launch with
  | prompt => exact congrArg (List.erase · a) (hlaunch s.now)
  | overtaken => exact congrArg (List.erase · a) (hlaunch (s.now + 1))
  | refused => exact congrArg (List.erase · a) (armings_onBuffer s a.buffer _)

/-- What holds of a session, and of what an operation makes of it for any buffer that the
    handle can refer to, holds after the operation. -/
theorem withHandle_cases {P : Session → Prop} {s : Session} (handle : Nat)
    {f : Nat → Session × Report} (hs : P s)
    (hf : ∀ b, s.bufferOf? handle = some b → P (f b).1) : P (s.withHandle handle f).1 := by
  rw [withHandle]
  split
  · exact hs
  · rename_i b hb
    exact hf b hb

end Session

mutual

-- on the tree of operations: those inside a change of a deadline are a list of their own

/-- An operation leaves no change in flight but those that were. -/
theorem Op.armings_run (op : Op) (s : Session) : (op.run s).1.armings = s.armings := by
  -- where the handle refers to no buffer, nothing happens
  have hsame {f : Nat → Session × Report} (handle : Nat)
      (hf : ∀ b, (f b).1.armings = s.armings) : (s.withHandle handle f).1.armings = s.armings :=
    Session.withHandle_cases (P := (·.armings = s.armings)) handle rfl fun b _ => hf b
  match op with
  | .create handle config => rfl
  | .share handle => exact hsame handle fun b => rfl
  | .drop handle => exact hsame handle fun b => Session.armings_retire _ b
  | .write handle chunk =>
    exact hsame handle fun b => Session.armings_onBuffer s b _
  | .close handle =>
    exact hsame handle fun b => Session.armings_onBuffer s b _
  | .inspect handle => exact hsame handle fun b => rfl
  | .read handle call =>
    exact hsame handle fun b => Session.armings_onBuffer _ b _
  | .deadline handle lead during launch =>
    unfold Op.run
    refine hsame handle fun b => ?_
    have hcases := s.startDeadline_cases b lead
    dsimp only at hcases ⊢
    rcases hcases with ⟨hfirst, hdone⟩ | ⟨a, buffer, -, -, -, hfirst, hopening⟩
    · split
      · rw [hfirst]
        exact Session.armings_onBuffer s b _
      · rw [hfirst]
        exact Session.armings_onBuffer s b _
      · rename_i a hopening
        exact absurd hopening (hdone a)
    · rw [hopening]
      dsimp only
      have hinside := Op.armings_runAll during (s.startDeadline b lead).1
      rw [Session.armings_retire, Session.armings_finishDeadline, hinside, hfirst,
        List.erase_cons_head]
      exact Session.armings_onBuffer s b _
  | .elapse handle => exact Session.armings_wakeAlarms _ _ _

/-- Operations one after the other. -/
theorem Op.armings_runAll (ops : List Op) (s : Session) :
    (Op.runAll ops s).1.armings = s.armings := by
  match ops with
  | [] => rfl
  | op :: rest => exact (Op.armings_runAll rest (op.run s).1).trans (Op.armings_run op s)

end

/-! ## Operations by turns -/

mutual

/-- How many generations an operation opens at most, with all that runs inside it: one
    with each change of a deadline and one with each close. -/
def Op.generations : Op → Nat
  | .close _ => 1
  | .deadline _ _ during _ => 1 + Op.generationsAll during
  | _ => 0

/-- Operations one after the other. -/
def Op.generationsAll : List Op → Nat
  | [] => 0
  | op :: rest => op.generations + Op.generationsAll rest

end

namespace Session

/-- The threads of timers wake one after the other. -/
theorem ways_wakeAlarms (s : Session) (reading : Nat) (ids : List Nat) :
    s.Ways 0 (s.wakeAlarms reading ids).1 := by
  induction ids generalizing s with
  | nil => exact .refl s 0
  | cons i rest ih =>
    have hfirst : s.Ways 0 (s.wakeAlarm reading i).1 := .of_turn fun n => .wake s [] n reading i
    exact hfirst.trans (ih (s.wakeAlarm reading i).1)

theorem ways_elapse (s : Session) : s.Ways 0 s.elapse.1 := by
  have htick : s.Ways 0 { s with now := s.now + 1 } := .of_turn fun n => .tick s [] n
  exact htick.trans (ways_wakeAlarms _ _ _)

/-- A thread that starts, reads the clock at once, and has its timer handed over. -/
theorem ways_launch {s : Session} {a : Arming} (ha : a ∈ s.armings) (reading : Nat) :
    s.Ways 0 ((s.launch a reading).1.leave a) := by
  intro n
  let i := s.alarms.length
  have hstart : Turn ⟨s, [], n⟩ ⟨s.startThread a, [(a, i)], n⟩ :=
    .startThread n ha fun _ => List.not_mem_nil
  have hwake := Turn.wake (s.startThread a) [(a, i)] n reading i
  have hover := Turn.handOver ((s.startThread a).wakeAlarm reading i).1 n
    (List.mem_singleton_self (a, i))
  -- between its start and its hand-over no timer but this one is adrift
  rw [List.erase_cons_head] at hover
  exact ⟨n, by omega, ((Relation.ReflTransGen.single hstart).tail hwake).tail hover⟩

/-- The second half of a change in flight, after which the caller holds on no more. -/
theorem ways_finishDeadline {s : Session} {a : Arming} (ha : a ∈ s.armings) (launch : Launch) :
    s.Ways 0 ((s.finishDeadline a launch).1.retire a.buffer) := by
  cases launch with
  | prompt => exact ways_launch ha s.now
  | overtaken => exact ways_launch ha (s.now + 1)
  | refused => exact .of_turn fun n => .refuse n ha fun _ => List.not_mem_nil

end Session

mutual

/-- An operation is a sequence of turns, with those of the operations inside it. -/
theorem Op.ways_run (op : Op) (s : Session) : s.Ways op.generations (op.run s).1 := by
  match op with
  | .create handle config => exact .of_turn fun n => .create s [] n config
  | .share handle =>
    refine Session.withHandle_cases handle (.refl s _) fun b hb => ?_
    exact .of_turn fun n => .share [] n (Session.mem_handles_of_bufferOf? hb)
  | .drop handle =>
    refine Session.withHandle_cases handle (.refl s _) fun b hb => ?_
    exact .of_turn fun n => .drop [] n hb
  | .write handle chunk =>
    refine Session.withHandle_cases handle (.refl s _) fun b hb => ?_
    exact .of_turn fun n => .write [] n (Session.mem_handles_of_bufferOf? hb) chunk
  | .close handle =>
    refine Session.withHandle_cases handle (.refl s _) fun b hb => ?_
    exact .of_opening fun n => .close [] n (Session.mem_handles_of_bufferOf? hb)
  | .inspect handle => exact Session.withHandle_cases handle (.refl s _) fun b _ => .refl s _
  | .read handle call =>
    refine Session.withHandle_cases handle (.refl s _) fun b hb => ?_
    exact .of_turn fun n => .read [] n (Session.mem_handles_of_bufferOf? hb) call
  | .deadline handle lead during launch =>
    unfold Op.run
    refine Session.withHandle_cases handle (.refl s _) fun b hb => ?_
    have hfirst : s.Ways 1 (s.startDeadline b lead).1 :=
      .of_opening fun n => .startDeadline [] n (Session.mem_handles_of_bufferOf? hb) lead
    have hcases := s.startDeadline_cases b lead
    dsimp only at hcases ⊢
    rcases hcases with ⟨-, hdone⟩ | ⟨a, buffer, -, hab, -, harmings, hopening⟩
    · have hwhole := hfirst.trans (.refl _ (Op.generationsAll during))
      split
      · exact hwhole
      · exact hwhole
      · rename_i a hopening
        exact absurd hopening (hdone a)
    · rw [hopening]
      dsimp only
      have hinside := Op.ways_runAll during (s.startDeadline b lead).1
      -- the change is still in flight, since what runs inside it leaves the others alone
      have ha : a ∈ (Op.runAll during (s.startDeadline b lead).1).1.armings := by
        rw [Op.armings_runAll, harmings]
        exact List.mem_cons_self
      have hsecond := Session.ways_finishDeadline ha launch
      rw [hab] at hsecond
      exact (hfirst.trans hinside).trans hsecond
  | .elapse handle => exact s.ways_elapse

/-- Operations one after the other. -/
theorem Op.ways_runAll (ops : List Op) (s : Session) :
    s.Ways (Op.generationsAll ops) (Op.runAll ops s).1 := by
  match ops with
  | [] => exact .refl s 0
  | op :: rest => exact (Op.ways_run op s).trans (Op.ways_runAll rest (op.run s).1)

end

/-- To every boundary between steps there is a way by turns. -/
theorem Session.Boundary.ways {s t : Session} {ops : List Op} {seen : List Report}
    {underway : List (Nat × Outcome)} (h : Session.Boundary s ops seen underway t) :
    s.Ways (Op.generationsAll ops) t := by
  induction h with
  | here s ops => exact .refl s _
  | @next s t op ops seen underway _ ih => exact (Op.ways_run op s).trans ih
  | @inside s t first e a handle b lead during ops launch seen underway hhandle hfirst _ ih =>
    have hopen : s.Ways 1 (s.startDeadline b lead).1 :=
      .of_opening fun n => .startDeadline [] n (mem_handles_of_bufferOf? hhandle) lead
    rw [hfirst] at hopen
    exact (hopen.trans ih).trans (.refl t (Op.generationsAll ops))

end StreamBuffer
