/-
  StreamBuffer.Proofs.Session.Repeating

  One buffer to which the same is done twice in a row.

  A buffer that was closed is closed again, or a change of its deadline, from its first half to
  its second with nothing in between, is made again. Either way the second time opens a
  generation and does nothing else to the view (`View.act_close_again`, `View.change_again`).

  The generation is a name, but for the changes in flight: those were of older generations
  already when it was done once (`View.Alike.refreshed`), as long as their ages do not wrap
  around. No change is older than the generations that its history opened (`View.aged_follow`).
-/
import StreamBuffer.Proofs.Buffer.Rewaking
import StreamBuffer.Proofs.Session.Likeness

namespace StreamBuffer

/-- Under the same numbers, and with its own generation and timer, a buffer is the same. -/
theorem Buffer.renumber_id (b : Buffer) : b.renumber id b.state.generation b.state.timer = b := by
  have hid : Reader.renumber id = id := rfl
  rw [renumber, hid, List.map_id]
  rfl

/-- A timer started for a deadline is over, or was never there, when the change is: the thread
    finds the deadline come, or is refused. -/
def Launch.reaches (launch : Launch) (deadline : Instant) : Bool :=
  match launch with
  | .prompt => deadline.hasCome 0
  | .overtaken => deadline.hasCome 1
  | .refused => true

namespace View

/-! ## The first half of a change -/

/-- A change puts itself in flight: its deadline is still to come, and the timer's thread can
    have its name. -/
def flies (v : View) (lead : Option Lead) : Bool :=
  (v.buffer.map Buffer.threadName).any isThreadName
    && lead.any fun l => !(l.instant 0).hasCome 0

theorem enterFlight_of_not_flies {v : View} {lead : Option Lead} (h : v.flies lead = false) :
    v.enterFlight (lead.map (Lead.instant 0)) = v := by
  obtain ⟨buffer, armed, armings⟩ := v
  cases buffer with
  | none => rfl
  | some b =>
    cases lead with
    | none => rfl
    | some l =>
      refine if_pos ?_
      simp only [flies, Option.any_some, Bool.and_eq_false_iff, Bool.not_eq_false'] at h
      exact h.symm

theorem enterFlight_of_flies {v : View} {lead : Option Lead} (h : v.flies lead = true) :
    ∃ b deadline, v.buffer = some b ∧ lead.map (Lead.instant 0) = some deadline
      ∧ deadline.hasCome 0 = false
      ∧ v.enterFlight (some deadline)
        = { v with armings := (b.state.generation, deadline) :: v.armings } := by
  obtain ⟨buffer, armed, armings⟩ := v
  rw [flies, Bool.and_eq_true, Option.any_eq_true, Option.any_eq_true] at h
  obtain ⟨⟨name, hmap, hname⟩, l, rfl, hahead⟩ := h
  obtain ⟨b, hb, rfl⟩ := Option.map_eq_some_iff.mp hmap
  obtain rfl : buffer = some b := hb
  have hcome : (l.instant 0).hasCome 0 = false := by simpa using hahead
  refine ⟨b, l.instant 0, rfl, rfl, hcome, if_neg ?_⟩
  rw [hcome, hname]
  simp

/-- The view after the first half of a change, before the change is in flight. -/
def begun (v : View) (b : Buffer) (deadline : Option Instant) : View :=
  { v.disarm with buffer := some (b.startDeadline 0 deadline).1 }

theorem act_startDeadline {v : View} {b : Buffer} (hb : v.buffer = some b) (lead : Option Lead) :
    let deadline := lead.map (Lead.instant 0)
    v.act (.startDeadline lead)
      = ((v.begun b deadline).enterFlight deadline, (b.startDeadline 0 deadline).2.ended) := by
  obtain ⟨buffer, armed, armings⟩ := v
  obtain rfl : buffer = some b := hb
  rfl

/-- The change is of the same buffer still. -/
theorem flies_begun {v : View} {b : Buffer} (hb : v.buffer = some b) (deadline : Option Instant)
    (lead : Option Lead) : (v.begun b deadline).flies lead = v.flies lead := by
  have hname : (b.startDeadline 0 deadline).1.threadName = b.threadName :=
    b.threadName_act (.startDeadline 0 deadline)
  rw [flies, flies, hb, begun]
  simp only [Option.map_some, hname]

/-! ## The second half -/

/-- The second half of a change of the current generation, at a buffer without a timer whose
    deadline is not reached. -/
theorem finish_of_isCurrent {v : View} {a : UInt64 × Instant} (hcurrent : v.isCurrent a.1 = true)
    (hreached : v.buffer.any (·.state.deadlineReached) = false) (harmed : v.armed = none)
    (launch : Launch) :
    v.finish a launch
      = if launch.reaches a.2 then v.on Buffer.reachDeadline
        else ({ v with armed := some a.2 }, []) := by
  have hdisarm : v.disarm = v := by rw [disarm, ← harmed]
  have hlaunch : ∀ reading, v.launch a reading = if a.2.hasCome reading
      then v.on Buffer.reachDeadline else ({ v with armed := some a.2 }, []) := by
    intro reading
    have hinstall : v.install a = { v with armed := some a.2 } := if_pos ⟨hcurrent, hreached⟩
    rw [View.launch, fire, if_pos hcurrent, ring, hdisarm, hinstall]
  cases launch with
  | prompt => exact hlaunch 0
  | overtaken => exact hlaunch 1
  | refused => exact if_pos hcurrent

/-- A change of the deadline with nothing between its halves. -/
def change (v : View) (lead : Option Lead) (launch : Launch) : Result :=
  let half := v.act (.startDeadline lead)
  if v.flies lead then
    ((half.1.act (.finishDeadline launch)).1, half.2 ++ (half.1.act (.finishDeadline launch)).2)
  else half

/-- A change that goes through both its halves. -/
theorem act_finishDeadline_of_flies {v : View} {b : Buffer} {lead : Option Lead}
    (hb : v.buffer = some b) (h : v.flies lead = true) (launch : Launch) :
    ∃ deadline, lead.map (Lead.instant 0) = some deadline ∧
      let half := b.startDeadline 0 (some deadline)
      let first := v.act (.startDeadline lead)
      first.2 = half.2.ended
        ∧ first.1.act (.finishDeadline launch)
          = if launch.reaches deadline
            then ({ v.disarm with buffer := some half.1.reachDeadline.1 },
              half.1.reachDeadline.2.ended)
            else ({ v with buffer := some half.1, armed := some deadline }, []) := by
  obtain ⟨-, deadline, -, hdeadline, -, -⟩ := enterFlight_of_flies h
  refine ⟨deadline, hdeadline, ?_⟩
  intro half first
  -- the first half leaves a buffer of a generation of its own, with the change in flight
  have hflies : (v.begun b (some deadline)).flies lead = true := by rw [flies_begun hb, h]
  obtain ⟨b', deadline', hb', hsame, hcome, henter⟩ := enterFlight_of_flies hflies
  obtain rfl : half.1 = b' := Option.some.inj hb'
  obtain rfl : deadline = deadline' := Option.some.inj (hdeadline.symm.trans hsame)
  let change : UInt64 × Instant := (half.1.state.generation, deadline)
  let flying : View := { v.disarm with buffer := some half.1, armings := change :: v.armings }
  have hfirst : first = (flying, half.2.ended) := by
    have hhalf := act_startDeadline hb lead
    rw [hdeadline] at hhalf
    exact hhalf.trans (congrArg (·, half.2.ended) henter)
  have hcurrent : flying.isCurrent change.1 = true := beq_self_eq_true _
  have hreached : flying.buffer.any (·.state.deadlineReached) = false :=
    (b.fields_act (.startDeadline 0 (some deadline))).2.1.trans hcome
  have hsecond : flying.act (.finishDeadline launch)
      = ({ (flying.finish change launch).1 with armings := v.armings },
        (flying.finish change launch).2) := rfl
  rw [hfirst]
  refine ⟨rfl, ?_⟩
  rw [hsecond, finish_of_isCurrent hcurrent hreached rfl]
  cases launch.reaches deadline <;> rfl

/-- A change leaves the buffer in the state of its first half, or with the deadline reached. -/
theorem change_cases {v : View} {b : Buffer} (hb : v.buffer = some b) (lead : Option Lead)
    (launch : Launch) :
    let deadline := lead.map (Lead.instant 0)
    let half := b.startDeadline 0 deadline
    if v.flies lead = true ∧ deadline.any launch.reaches = true then
      v.change lead launch = ({ v.disarm with buffer := some half.1.reachDeadline.1 },
        half.2.ended ++ half.1.reachDeadline.2.ended)
    else
      v.change lead launch = ({ v with
        buffer := some half.1
        armed := if v.flies lead then deadline else none }, half.2.ended) := by
  intro deadline half
  cases hflies : v.flies lead with
  | false =>
    have hbegun : (v.begun b deadline).flies lead = false := by rw [flies_begun hb, hflies]
    rw [if_neg (by simp), change, hflies, act_startDeadline hb, enterFlight_of_not_flies hbegun]
    rfl
  | true =>
    obtain ⟨d, hd, hfirst, hsecond⟩ := act_finishDeadline_of_flies hb hflies launch
    have hdeadline : deadline = some d := hd
    rw [change, hflies, if_pos rfl, hsecond, hfirst]
    simp only [half, hdeadline, Option.any_some, true_and]
    cases launch.reaches d with
    | false => simp
    | true => simp

/-! ## The same again -/

/-- The buffer is in its next generation, and all else is as it was. -/
def refreshed (v : View) : View := { v with buffer := v.buffer.map Buffer.refreshed }

/-- To close again. -/
theorem act_close_again (v : View) :
    let once := (v.act .close).1
    once.act .close = (once.refreshed, []) := by
  obtain ⟨buffer, armed, armings⟩ := v
  cases buffer with
  | none => rfl
  | some b =>
    obtain ⟨hbuffer, hended⟩ := b.close_close
    show (({ buffer := some b.close.1.close.1, armings } : View), b.close.1.close.2.ended) = _
    rw [hbuffer, hended]
    rfl

/-- To make a change again. -/
theorem change_again {v : View} {b : Buffer} (hb : v.buffer = some b) (lead : Option Lead)
    (launch : Launch) :
    let once := (v.change lead launch).1
    once.change lead launch = (once.refreshed, []) := by
  intro once
  let deadline := lead.map (Lead.instant 0)
  let half := (b.startDeadline 0 deadline).1
  have hname : half.threadName = b.threadName := b.threadName_act (.startDeadline 0 deadline)
  -- the change goes in flight once more if it did
  have hflies : ∀ {b' : Buffer}, once.buffer = some b' → b'.threadName = b.threadName →
      once.flies lead = v.flies lead := by
    intro b' hb' hsame
    rw [flies, flies, hb, hb', Option.map_some, Option.map_some, hsame]
  have hfirst := change_cases hb lead launch
  dsimp only at hfirst
  split at hfirst
  · rename_i hreaches
    obtain ⟨hagain, hended, hended'⟩ := half.reachDeadline_startDeadline_reachDeadline 0 deadline
    have honce : once = { v.disarm with buffer := some half.reachDeadline.1 } :=
      congrArg Prod.fst hfirst
    have hin : once.buffer = some half.reachDeadline.1 := by rw [honce]
    have hsame : half.reachDeadline.1.threadName = b.threadName :=
      (Buffer.wakeAll_served _).threadName_eq.trans hname
    have hsecond := change_cases hin lead launch
    dsimp only at hsecond
    rw [hflies hin hsame, if_pos hreaches, hagain, hended, hended'] at hsecond
    rw [hsecond, honce]
    rfl
  · rename_i hreaches
    obtain ⟨hagain, hended⟩ := b.startDeadline_startDeadline 0 deadline
    have honce : once = { v with
        buffer := some half
        armed := if v.flies lead then deadline else none } := congrArg Prod.fst hfirst
    have hin : once.buffer = some half := by rw [honce]
    have hsecond := change_cases hin lead launch
    dsimp only at hsecond
    rw [hflies hin hname, if_neg hreaches, hagain, hended] at hsecond
    rw [hsecond, honce]
    rfl

/-! ## The generation that is opened -/

/-- In `w` a generation more was opened than in `v`, and the changes in flight are the same. -/
structure Renews (v w : View) : Prop where
  isSome : w.buffer.isSome = true
  armings : w.armings = v.armings
  generation : w.generation = v.generation + 1

theorem renews_close {v : View} {b : Buffer} (hb : v.buffer = some b) :
    v.Renews (v.act .close).1 := by
  obtain ⟨buffer, armed, armings⟩ := v
  obtain rfl : buffer = some b := hb
  exact ⟨rfl, rfl, (b.fields_act .close).2.2.2⟩

/-- The first half of a change opens a generation. -/
theorem generation_startDeadline (b : Buffer) (deadline : Option Instant) :
    (b.startDeadline 0 deadline).1.state.generation = b.state.generation + 1 :=
  (b.fields_act (.startDeadline 0 deadline)).2.2.2

/-- When a change is over, no other is in flight than before. -/
theorem renews_change {v : View} {b : Buffer} (hb : v.buffer = some b) (lead : Option Lead)
    (launch : Launch) : v.Renews (v.change lead launch).1 := by
  have hgeneration := generation_startDeadline b (lead.map (Lead.instant 0))
  have hold : v.generation = b.state.generation := by rw [View.generation, hb]; rfl
  have hcases := change_cases hb lead launch
  dsimp only at hcases
  split at hcases
  · rw [hcases]
    refine ⟨rfl, rfl, ?_⟩
    rw [hold, ← hgeneration]
    exact (Buffer.state_reachDeadline _).2.2
  · rw [hcases]
    refine ⟨rfl, rfl, ?_⟩
    rw [hold, ← hgeneration]
    rfl

/-! ## How old changes are -/

/-- No more than `n` generations were opened since a change in flight was begun. -/
def Aged (n : Nat) (v : View) : Prop := ∀ a ∈ v.armings, (v.since a.1).toNat ≤ n

namespace Aged

variable {n : Nat} {v : View}

theorem mono {m : Nat} (h : v.Aged n) (hle : n ≤ m) : v.Aged m := fun a ha =>
  Nat.le_trans (h a ha) hle

/-- Generations are opened. -/
theorem on {opens : Nat} {f : Buffer → Buffer × Effects} (h : v.Aged n)
    (hf : Buffer.Renumbers id opens f f) : (v.on f).1.Aged (n + opens) := by
  intro a ha
  rw [armings_on] at ha
  have hold := h a ha
  cases hb : v.buffer with
  | none =>
    rw [View.on, hb]
    exact Nat.le_trans hold (Nat.le_add_right n opens)
  | some b =>
    have hopens := (hf b 0 none).2.2
    have hsince : (v.on f).1.since a.1 = v.since a.1 + UInt64.ofNat opens := by
      rw [View.on, hb, since, since, generation, generation, hb]
      simp only [Option.map_some, Option.getD_some, hopens]
      grind
    rw [hsince, UInt64.toNat_add, UInt64.toNat_ofNat']
    have hmod : opens % 2 ^ 64 ≤ opens := Nat.mod_le _ _
    have hmod' := Nat.mod_le ((v.since a.1).toNat + opens % 2 ^ 64) (2 ^ 64)
    omega

theorem disarm (h : v.Aged n) : v.disarm.Aged n := h

theorem ring (h : v.Aged n) : v.ring.1.Aged n := h.disarm.on (Buffer.renumbers_reachDeadline id)

theorem finish (h : v.Aged n) (a : UInt64 × Instant) (launch : Launch) :
    (v.finish a launch).1.Aged n := by
  have hfire : (v.fire a.1).1.Aged n := by
    rw [View.fire]
    split
    · exact h.ring
    · exact h
  have hinstall : (v.install a).Aged n := by
    rw [View.install]
    split
    · exact h
    · exact h
  have hlaunch : ∀ reading, (v.launch a reading).1.Aged n := by
    intro reading
    rw [View.launch]
    split
    · exact hfire
    · exact hinstall
  cases launch with
  | prompt => exact hlaunch 0
  | overtaken => exact hlaunch 1
  | refused =>
    rw [View.finish, View.refuse]
    split
    · exact h.on (Buffer.renumbers_reachDeadline id)
    · exact h

/-- A change that enters flight is of the current generation. -/
theorem enterFlight (h : v.Aged n) (deadline : Option Instant) :
    (v.enterFlight deadline).Aged n := by
  obtain ⟨buffer, armed, armings⟩ := v
  cases buffer with
  | none => exact h
  | some b =>
    cases deadline with
    | none => exact h
    | some deadline =>
      show (if deadline.hasCome 0 ∨ isThreadName b.threadName = false then _ else _ : View).Aged n
      split
      · exact h
      · intro a ha
        rcases List.mem_cons.mp ha with rfl | ha
        · have hzero : b.state.generation - b.state.generation = 0 := UInt64.sub_self _
          show (b.state.generation - b.state.generation).toNat ≤ n
          rw [hzero]
          exact Nat.zero_le n
        · exact h a ha

theorem act (h : v.Aged n) (d : Deed) : (v.act d).1.Aged (n + d.opens) := by
  cases d with
  | create c => exact fun _ ha => nomatch ha
  | write chunk => exact h.on (Buffer.renumbers_write id chunk)
  | close => exact h.disarm.on (Buffer.renumbers_close id)
  | read i call => exact h.on (Buffer.renumbers_read id i call)
  | startDeadline lead =>
    exact (h.disarm.on (Buffer.renumbers_startDeadline id 0 _)).enterFlight _
  | finishDeadline launch =>
    show (v.act (.finishDeadline launch)).1.Aged n
    unfold View.act
    cases hv : v.armings with
    | nil => exact h
    | cons a rest =>
      intro a' ha'
      refine h.finish a launch a' ?_
      rw [armings_finish, hv]
      exact List.mem_cons_of_mem a ha'

theorem elapse (h : v.Aged n) : v.elapse.1.Aged n := by
  have hage : v.age.Aged n := by
    intro a ha
    obtain ⟨a', ha', rfl⟩ := List.mem_map.mp ha
    exact h a' ha'
  rw [View.elapse]
  split
  · exact hage.ring
  · exact hage

/-- No change is older than what its history opened. -/
theorem follow (h : v.Aged n) (ds : List (Option Deed)) : (v.follow ds).1.Aged (n + opens ds) := by
  induction ds generalizing v n with
  | nil => exact h
  | cons d rest ih =>
    cases d with
    | none => exact ih h.elapse
    | some d =>
      rw [opens, ← Nat.add_assoc]
      exact ih (h.act d)

end Aged

/-- What is done to one buffer opens no more generations than what is done to all. -/
theorem opens_project_le (b : Nat) (steps : List Step) :
    opens (project b steps) ≤ openings steps := by
  induction steps with
  | nil => exact Nat.le_refl 0
  | cons step rest ih =>
    have hstep : opens (project b (step :: rest)) ≤ openings [step] + opens (project b rest) := by
      cases step with
      | elapse => exact Nat.le_add_left _ _
      | on c d =>
        by_cases hc : c = b
        · subst hc
          cases d <;> simp [project, Step.for?, opens, Deed.opens, openings, Step.opens]
        · simp [project, Step.for?, hc]
    have hall : openings (step :: rest) = openings [step] + openings rest :=
      openings_append [step] rest
    omega

/-! ## The next generation -/

namespace Alike

theorem refl (k : Nat) (v : View) : Alike id k v v := by
  refine ⟨?_, rfl, List.forall₂_same.mpr fun a _ => ⟨rfl, Or.inl rfl⟩⟩
  cases v.buffer with
  | none => exact ⟨0, none, rfl⟩
  | some b => exact ⟨b.state.generation, b.state.timer, congrArg some b.renumber_id.symm⟩

/-- A view in which a generation was just opened, and the same in the next one: no change in
    flight is of the current generation, in either. -/
theorem refreshed {n k : Nat} {v w : View} (h : v.Renews w) (haged : v.Aged n)
    (hk : n + 2 + k < UInt64.size) : Alike id k w.refreshed w := by
  obtain ⟨hbuffer, harmings, hgeneration⟩ := h
  obtain ⟨b, hb⟩ := Option.isSome_iff_exists.mp hbuffer
  have hnext : w.refreshed.generation = v.generation + 2 := by
    have hb' : w.generation = b.state.generation := by rw [generation, hb]; rfl
    rw [View.refreshed, generation, hb]
    show b.state.generation + 1 = v.generation + 2
    rw [← hb', hgeneration]
    grind
  refine ⟨⟨b.state.generation, b.state.timer, ?_⟩, rfl, ?_⟩
  · rw [View.refreshed, hb, Option.map_some, Buffer.refreshed_eq]
    exact congrArg some b.renumber_id.symm
  · refine List.forall₂_same.mpr fun a ha => ⟨rfl, Or.inr ?_⟩
    rw [View.refreshed, harmings] at ha
    have hage := haged a ha
    have hafter : ∀ {u : View} {m : Nat}, u.generation = v.generation + UInt64.ofNat m → 0 < m →
        m ≤ 2 → u.since a.1 ≠ 0 ∧ (u.since a.1).toNat + k < UInt64.size := by
      intro u m hu hpos hle
      have hsince : u.since a.1 = v.since a.1 + UInt64.ofNat m := by
        rw [since, since, hu]
        grind
      have hsum : (u.since a.1).toNat = (v.since a.1).toNat + m := by
        rw [hsince]
        exact toNat_add_ofNat (by omega)
      refine ⟨fun hzero => ?_, by omega⟩
      rw [hzero, UInt64.toNat_zero] at hsum
      omega
    obtain ⟨hne, hlt⟩ := hafter (m := 2) hnext (by decide) (by decide)
    obtain ⟨hne', hlt'⟩ := hafter (m := 1) hgeneration (by decide) (by decide)
    exact ⟨hne, hne', hlt, hlt'⟩

end Alike

end View

end StreamBuffer
