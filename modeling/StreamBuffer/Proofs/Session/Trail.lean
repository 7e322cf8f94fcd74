/-
  StreamBuffer.Proofs.Session.Trail

  What operations do, buffer by buffer, and what was told of it.

  The trail of an operation (`Op.trail`) names what it does to which buffer, in order, with all
  that runs inside it, and when time passes. It names buffers and not handles; that handles
  come and go, or that something is looked at, leaves no trail. What a trail means for one
  buffer is its history there (`history`), from the making of the buffer on.

  `Past s ops steps seen underway t` says that `t` is a boundary between two steps while `ops`
  run from `s`, as `Boundary` does, and `steps` is the trail up to there (`Past.boundary`,
  `exists_past_of_boundary`).
-/
import StreamBuffer.Proofs.Session.Calls
import StreamBuffer.Proofs.Session.Turn

namespace StreamBuffer

/-! ## Trails -/

/-- What is done to one buffer: it is made; a call on it; one half of a change of its
    deadline, the second one that of the innermost change in flight. -/
inductive Deed where
  | create (c : Config)
  | write (chunk : Bytes)
  | close
  | read (id : Nat) (call : Call)
  | startDeadline (lead : Option Lead)
  | finishDeadline (launch : Launch)

/-- One step of a session: something is done to one buffer, or time passes for all. -/
inductive Step where
  | on (b : Nat) (d : Deed)
  | elapse

/-- The steps of an operation through a handle, on the buffer it refers to, if any. -/
def Session.trailVia (s : Session) (h : Nat) (f : Nat → List Step) : List Step :=
  match s.bufferOf? h with
  | none => []
  | some b => f b

mutual

/-- The steps of an operation, with those of what runs inside it. -/
def Op.trail : Op → Session → List Step
  | .create _ config, s => [.on s.buffers.length (.create config)]
  | .share _, _ | .drop _, _ | .inspect _, _ => []
  | .write h chunk, s => s.trailVia h fun b => [.on b (.write chunk)]
  | .close h, s => s.trailVia h fun b => [.on b .close]
  | .read h call, s => s.trailVia h fun b => [.on b (.read s.started call)]
  | .deadline h lead during launch, s => s.trailVia h fun b =>
    let (first, _, opening) := s.startDeadline b lead
    match opening with
    | .complete | .badThreadName => [.on b (.startDeadline lead)]
    | .inFlight _ =>
      .on b (.startDeadline lead) :: (Op.trailAll during first ++ [.on b (.finishDeadline launch)])
  | .elapse _, _ => [.elapse]

/-- The steps of operations, one after the other. -/
def Op.trailAll : List Op → Session → List Step
  | [], _ => []
  | op :: ops, s => op.trail s ++ Op.trailAll ops (op.run s).1

end

/-! ## Histories of single buffers -/

/-- What a step means for a buffer: what it does to it, or that time passes; nothing, if it
    does something to another. -/
def Step.for? (b : Nat) : Step → Option (Option Deed)
  | .on c d => if c = b then some (some d) else none
  | .elapse => some none

/-- The read call that a step begins on a buffer, by number. -/
def Step.callOn? (b : Nat) : Step → Option Nat
  | .on c (.read id _) => if c = b then some id else none
  | _ => none

/-- The deed with the number of the call left out. -/
def Deed.anonymous : Deed → Deed
  | .read _ call => .read 0 call
  | d => d

/-- What steps mean for a buffer, in order. -/
def project (b : Nat) (steps : List Step) : List (Option Deed) := steps.filterMap (Step.for? b)

/-- The history of a buffer from its making on, whatever numbers its calls go by: all that is
    done to it, through whichever handle, and the points at which time passes. -/
def history (b : Nat) (steps : List Step) : List (Option Deed) :=
  ((project b steps).dropWhile Option.isNone).map (Option.map Deed.anonymous)

/-- The read calls on a buffer, by number, in the order they began. -/
def callsOn (b : Nat) (steps : List Step) : List Nat := steps.filterMap (Step.callOn? b)

/-- The step opens a generation: it closes a buffer or begins to change its deadline. -/
def Step.opens : Step → Bool
  | .on _ .close | .on _ (.startDeadline _) => true
  | _ => false

/-- How many generations the steps open, whatever buffers they are of. -/
def openings (steps : List Step) : Nat := steps.countP Step.opens

theorem project_append (b : Nat) (first second : List Step) :
    project b (first ++ second) = project b first ++ project b second := List.filterMap_append

theorem openings_append (first second : List Step) :
    openings (first ++ second) = openings first + openings second := List.countP_append

/-! ## The numbers of the calls in a trail -/

/-- The read call that a step begins, by number. -/
def Step.call? : Step → Option Nat
  | .on _ (.read id _) => some id
  | _ => none

/-- The read calls in steps, in order. -/
def callsIn (steps : List Step) : List Nat := steps.filterMap Step.call?

theorem callsIn_append (first second : List Step) :
    callsIn (first ++ second) = callsIn first ++ callsIn second := List.filterMap_append

/-- The calls on one buffer are some of all, in the same order. -/
theorem callsOn_sublist (b : Nat) (steps : List Step) :
    (callsOn b steps).Sublist (callsIn steps) := by
  induction steps with
  | nil => exact .slnil
  | cons step rest ih =>
    have hcons : callsIn (step :: rest) = step.call?.toList ++ callsIn rest := by
      cases h : step.call? <;> simp [callsIn, h]
    have hcons' : callsOn b (step :: rest) = (step.callOn? b).toList ++ callsOn b rest := by
      cases h : step.callOn? b <;> simp [callsOn, h]
    have hstep : (step.callOn? b).toList.Sublist step.call?.toList := by
      cases step with
      | elapse => exact .slnil
      | on c d =>
        cases d with
        | read id call =>
          simp only [Step.callOn?, Step.call?]
          split
          · exact .refl _
          · exact List.nil_sublist _
        | _ => exact .slnil
    rw [hcons, hcons']
    exact hstep.append ih

namespace Session

/-- The calls in the steps from `s` to `t` are those that began meanwhile, in order. -/
def Numbers (s : Session) (steps : List Step) (t : Session) : Prop :=
  s.started ≤ t.started ∧ callsIn steps = List.range' s.started (t.started - s.started)

theorem Numbers.of_started {s t : Session} {steps : List Step} (h : t.started = s.started)
    (hnone : callsIn steps = []) : s.Numbers steps t := by
  refine ⟨Nat.le_of_eq h.symm, ?_⟩
  rw [hnone, h, Nat.sub_self]
  rfl

theorem Numbers.trans {s t u : Session} {first second : List Step} (h₁ : s.Numbers first t)
    (h₂ : t.Numbers second u) : s.Numbers (first ++ second) u := by
  obtain ⟨hle₁, hcalls₁⟩ := h₁
  obtain ⟨hle₂, hcalls₂⟩ := h₂
  refine ⟨Nat.le_trans hle₁ hle₂, ?_⟩
  have hmid : t.started = s.started + (t.started - s.started) := by omega
  have hlength : u.started - s.started = (t.started - s.started) + (u.started - t.started) := by
    omega
  have hsecond : callsIn second
      = List.range' (s.started + (t.started - s.started)) (u.started - t.started) := by
    rw [hcalls₂, ← hmid]
  rw [callsIn_append, hcalls₁, hsecond, hlength, List.range'_append_1]

/-- An operation through a handle that begins no call. -/
theorem started_withHandle {s : Session} {f : Nat → Session × Report} (h : Nat)
    (hf : ∀ b, (f b).1.started = s.started) : (s.withHandle h f).1.started = s.started :=
  withHandle_cases (P := (·.started = s.started)) h rfl fun b _ => hf b

/-- An operation through a handle, whether a buffer goes by it or not. -/
theorem Numbers.withHandle {s : Session} {h : Nat} {f : Nat → Session × Report}
    {g : Nat → List Step} (hf : ∀ b, s.bufferOf? h = some b → s.Numbers (g b) (f b).1) :
    s.Numbers (s.trailVia h g) (s.withHandle h f).1 := by
  rw [Session.withHandle, trailVia]
  cases hb : s.bufferOf? h with
  | none => exact .of_started rfl rfl
  | some b => exact hf b hb

end Session

mutual

-- on the tree of operations: those inside a change of a deadline are a list of their own

/-- An operation, with all that runs inside it. -/
theorem Op.numbers_run (op : Op) (s : Session) : s.Numbers (op.trail s) (op.run s).1 := by
  match op with
  | .create handle config => exact .of_started rfl rfl
  | .share handle => exact .of_started (Session.started_withHandle handle fun b => rfl) rfl
  | .drop handle =>
    exact .of_started (Session.started_withHandle handle fun b => Session.started_retire _ b) rfl
  | .write handle chunk =>
    refine Session.Numbers.withHandle fun b _ => .of_started (s.started_onBuffer b _) rfl
  | .close handle =>
    refine Session.Numbers.withHandle fun b _ => .of_started (s.started_onBuffer b _) rfl
  | .inspect handle => exact .of_started (Session.started_withHandle handle fun b => rfl) rfl
  | .read handle call =>
    refine Session.Numbers.withHandle fun b _ => ?_
    have hstarted := Session.started_read s b call
    refine ⟨?_, ?_⟩
    · show s.started ≤ (s.read b call).1.started
      omega
    · show [s.started] = List.range' s.started ((s.read b call).1.started - s.started)
      rw [hstarted, Nat.add_sub_cancel_left]
      rfl
  | .deadline handle lead during launch =>
    unfold Op.run Op.trail
    refine Session.Numbers.withHandle fun b _ => ?_
    have hfirst : s.Numbers [.on b (.startDeadline lead)] (s.startDeadline b lead).1 :=
      .of_started (s.started_startDeadline b lead) rfl
    dsimp only
    cases (s.startDeadline b lead).2.2 with
    | complete => exact hfirst
    | badThreadName => exact hfirst
    | inFlight a =>
      -- what runs inside starts where the first half ended, and the second half follows
      have hinside := Op.numbers_runAll during (s.startDeadline b lead).1
      have hsecond : (Op.runAll during (s.startDeadline b lead).1).1.Numbers
          [.on b (.finishDeadline launch)]
          (((Op.runAll during (s.startDeadline b lead).1).1.finishDeadline a launch).1.retire b) :=
        .of_started ((Session.started_retire _ b).trans
          (Session.started_finishDeadline _ a launch)) rfl
      exact hfirst.trans (hinside.trans hsecond)
  | .elapse handle => exact .of_started (Session.started_wakeAlarms _ _ _) rfl

/-- Operations one after the other. -/
theorem Op.numbers_runAll (ops : List Op) (s : Session) :
    s.Numbers (Op.trailAll ops s) (Op.runAll ops s).1 := by
  match ops with
  | [] => exact .of_started rfl rfl
  | op :: rest => exact (Op.numbers_run op s).trans (Op.numbers_runAll rest (op.run s).1)

end

namespace Session

/-! ## Boundaries with their past -/

/-- `t` is the session between two steps of the operations run from `s`, as in `Boundary`, and
    `steps` are all that were taken on the way. -/
inductive Past : Session → List Op → List Step → List Report → List (Nat × Outcome) →
    Session → Prop where
  | here (s : Session) (ops : List Op) : Past s ops [] [] [] s
  | next {s t : Session} {op : Op} {ops : List Op} {steps : List Step} {seen : List Report}
      {underway : List (Nat × Outcome)} (h : Past (op.run s).1 ops steps seen underway t) :
      Past s (op :: ops) (op.trail s ++ steps) ((op.run s).2 :: seen) underway t
  | inside {s t first : Session} {e : Effects} {a : Arming} {handle b : Nat}
      {lead : Option Lead} {during ops : List Op} {launch : Launch} {steps : List Step}
      {seen : List Report} {underway : List (Nat × Outcome)} (hhandle : s.bufferOf? handle = some b)
      (hfirst : s.startDeadline b lead = (first, e, .inFlight a))
      (h : Past first during steps seen underway t) :
      Past s (.deadline handle lead during launch :: ops) (.on b (.startDeadline lead) :: steps)
        seen (e.ended ++ underway) t

variable {s t : Session} {ops : List Op} {steps : List Step} {seen : List Report}
  {underway : List (Nat × Outcome)}

theorem Past.boundary (h : Past s ops steps seen underway t) : Boundary s ops seen underway t := by
  induction h with
  | here s ops => exact .here s ops
  | next _ ih => exact .next ih
  | inside hhandle hfirst _ ih => exact .inside hhandle hfirst ih

/-- Every boundary has a past. -/
theorem exists_past_of_boundary (h : Boundary s ops seen underway t) :
    ∃ steps, Past s ops steps seen underway t := by
  induction h with
  | here s ops => exact ⟨[], .here s ops⟩
  | next _ ih =>
    obtain ⟨steps, hpast⟩ := ih
    exact ⟨_, .next hpast⟩
  | inside hhandle hfirst _ ih =>
    obtain ⟨steps, hpast⟩ := ih
    exact ⟨_, .inside hhandle hfirst hpast⟩

/-- The whole run has its trail for its past. -/
theorem past_runAll (s : Session) (ops : List Op) :
    Past s ops (Op.trailAll ops s) (Op.runAll ops s).2 [] (Op.runAll ops s).1 := by
  induction ops generalizing s with
  | nil => exact .here s []
  | cons op rest ih => exact .next (ih (op.run s).1)

theorem Past.numbers (h : Past s ops steps seen underway t) : s.Numbers steps t := by
  induction h with
  | here s ops => exact .of_started rfl rfl
  | @next s t op ops steps seen underway _ ih => exact (Op.numbers_run op s).trans ih
  | @inside s t first e a handle b lead during ops launch steps seen underway _ hfirst _ ih =>
    have hstarted := s.started_startDeadline b lead
    rw [hfirst] at hstarted
    have hopened : s.Numbers [.on b (.startDeadline lead)] first := .of_started hstarted rfl
    exact hopened.trans ih

/-- Every call on a buffer has a number of its own. -/
theorem Past.nodup_callsOn (h : Past s ops steps seen underway t) (b : Nat) :
    (callsOn b steps).Nodup := by
  refine (callsOn_sublist b steps).nodup ?_
  rw [h.numbers.2]
  exact List.nodup_range'

end Session

end StreamBuffer
