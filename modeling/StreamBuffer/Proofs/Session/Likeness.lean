/-
  StreamBuffer.Proofs.Session.Likeness

  Views that differ in names only.

  Two views are alike under a renumbering of the calls (`View.Alike`) if they agree in all but
  the numbers of calls and the generations, and what is left of the generations agrees too:
  which change in flight is of the current one. That is told by the age of a change, the number
  of generations opened since. Ages go up together, and either they are the same, or neither
  is zero, and neither can come to be for as long as no more than `k` generations are opened.

  A deed done to both keeps them alike and ends the same calls in the same way (`Alike.act`), so
  does time (`Alike.elapse`), and therefore any history (`Alike.follow`).
-/
import StreamBuffer.Proofs.Session.View
import StreamBuffer.Proofs.Session.Viewing

namespace StreamBuffer

/-! ## Ages of changes -/

/-- The ages are the same, or neither is zero, nor will be before more than `k` generations
    are opened. -/
def SameAge (k : Nat) (d d' : UInt64) : Prop :=
  d = d' ∨ (d ≠ 0 ∧ d' ≠ 0 ∧ d.toNat + k < UInt64.size ∧ d'.toNat + k < UInt64.size)

namespace SameAge

variable {k : Nat} {d d' : UInt64}

theorem eq_zero_iff (h : SameAge k d d') : d = 0 ↔ d' = 0 := by
  rcases h with rfl | ⟨hne, hne', -⟩
  · exact Iff.rfl
  · exact iff_of_false hne hne'

/-- Generations are opened. -/
theorem add {n : Nat} (h : SameAge (k + n) d d') :
    SameAge k (d + UInt64.ofNat n) (d' + UInt64.ofNat n) := by
  -- an age that is not zero does not come to be by going up a little
  have hnext : ∀ {d : UInt64}, d ≠ 0 → d.toNat + (k + n) < UInt64.size →
      d + UInt64.ofNat n ≠ 0 ∧ (d + UInt64.ofNat n).toNat + k < UInt64.size := by
    intro d hne hlt
    have hsum : (d + UInt64.ofNat n).toNat = d.toNat + n := toNat_add_ofNat (by omega)
    refine ⟨fun hzero => hne ?_, by omega⟩
    have hd : d.toNat = 0 := by
      rw [hzero] at hsum
      have := UInt64.toNat_zero
      omega
    exact UInt64.toNat_inj.mp hd
  rcases h with rfl | ⟨hne, hne', hlt, hlt'⟩
  · exact Or.inl rfl
  · obtain ⟨hsum, hroom⟩ := hnext hne hlt
    obtain ⟨hsum', hroom'⟩ := hnext hne' hlt'
    exact Or.inr ⟨hsum, hsum', hroom, hroom'⟩

theorem mono {n : Nat} (h : SameAge (k + n) d d') : SameAge k d d' := by
  rcases h with rfl | ⟨hne, hne', hlt, hlt'⟩
  · exact Or.inl rfl
  · exact Or.inr ⟨hne, hne', by omega, by omega⟩

end SameAge

/-! ## Deeds under other numbers -/

/-- The deed with its call under another number. -/
def Deed.renumber (ρ : Nat → Nat) : Deed → Deed
  | .read id call => .read (ρ id) call
  | d => d

/-- How many generations a deed opens. -/
def Deed.opens : Deed → Nat
  | .close | .startDeadline _ => 1
  | _ => 0

/-- The second operation does to the renumbered buffer what the first does to the buffer, and
    both open as many generations. -/
def Buffer.Renumbers (ρ : Nat → Nat) (opens : Nat) (f f' : Buffer → Buffer × Effects) : Prop :=
  ∀ b g timer, (∃ timer',
      (f' (b.renumber ρ g timer)).1 = (f b).1.renumber ρ (g + UInt64.ofNat opens) timer')
    ∧ (f' (b.renumber ρ g timer)).2.ended = renumberEnded ρ (f b).2.ended
    ∧ (f b).1.state.generation = b.state.generation + UInt64.ofNat opens

namespace Buffer

variable (ρ : Nat → Nat)

theorem renumbers_write (chunk : Bytes) : Renumbers ρ 0 (·.write chunk) (·.write chunk) := by
  intro b g timer
  obtain ⟨hbuffer, hended⟩ := write_renumber ρ g timer b chunk
  refine ⟨⟨timer, ?_⟩, hended, ?_⟩
  · rw [hbuffer]
    exact congrArg (fun g => renumber ρ g timer _) (UInt64.add_zero g).symm
  · exact (b.fields_act (.write chunk)).2.2.2.trans (UInt64.add_zero _).symm

theorem renumbers_read (i : Nat) (call : Call) :
    Renumbers ρ 0 (·.read { id := i, call }) (·.read { id := ρ i, call }) := by
  intro b g timer
  obtain ⟨hbuffer, hended⟩ := read_renumber ρ g timer b { id := i, call }
  refine ⟨⟨timer, ?_⟩, hended, ?_⟩
  · refine Eq.trans hbuffer ?_
    exact congrArg (fun g => renumber ρ g timer _) (UInt64.add_zero g).symm
  · exact (b.fields_act (.read i call)).2.2.2.trans (UInt64.add_zero _).symm

theorem renumbers_reachDeadline : Renumbers ρ 0 reachDeadline reachDeadline := by
  intro b g timer
  obtain ⟨hbuffer, hended⟩ := reachDeadline_renumber ρ g timer b
  refine ⟨⟨timer, ?_⟩, hended, ?_⟩
  · rw [hbuffer]
    exact congrArg (fun g => renumber ρ g timer _) (UInt64.add_zero g).symm
  · exact b.state_reachDeadline.2.2.trans (UInt64.add_zero _).symm

theorem renumbers_close : Renumbers ρ 1 close close := by
  intro b g timer
  obtain ⟨hbuffer, hended⟩ := close_renumber ρ g timer b
  exact ⟨⟨none, hbuffer⟩, hended, (b.fields_act .close).2.2.2⟩

theorem renumbers_startDeadline (now : Nat) (deadline : Option Instant) :
    Renumbers ρ 1 (·.startDeadline now deadline) (·.startDeadline now deadline) := by
  intro b g timer
  obtain ⟨hbuffer, hended⟩ := startDeadline_renumber ρ g timer b now deadline
  exact ⟨⟨none, hbuffer⟩, hended, (b.fields_act (.startDeadline now deadline)).2.2.2⟩

end Buffer

/-! ## Views that are alike -/

namespace View

/-- The buffer's generation. -/
def generation (v : View) : UInt64 := (v.buffer.map fun b => b.state.generation).getD 0

/-- How many generations were opened since the given one. -/
def since (v : View) (g : UInt64) : UInt64 := v.generation - g

/-- The two views agree in all but names, and which changes in flight are of the current
    generation will be the same for as long as no more than `k` generations are opened. -/
structure Alike (ρ : Nat → Nat) (k : Nat) (v v' : View) : Prop where
  buffer : ∃ g timer, v'.buffer = v.buffer.map (Buffer.renumber ρ g timer)
  armed : v'.armed = v.armed
  armings : List.Forall₂ (fun a a' => a'.2 = a.2 ∧ SameAge k (v.since a.1) (v'.since a'.1))
    v.armings v'.armings

theorem isCurrent_iff {v : View} {g : UInt64} :
    v.isCurrent g = true ↔ v.buffer.isSome ∧ v.since g = 0 := by
  rw [isCurrent, since, generation]
  cases v.buffer with
  | none => simp
  | some b =>
    simp only [Option.any_some, beq_iff_eq, Option.isSome_some, true_and, Option.map_some,
      Option.getD_some]
    grind

theorem armings_finish (v : View) (a : UInt64 × Instant) (launch : Launch) :
    (v.finish a launch).1.armings = v.armings := by
  have hring : v.ring.1.armings = v.armings := v.disarm.armings_on _
  have hfire : (v.fire a.1).1.armings = v.armings := by
    rw [fire]
    split
    · exact hring
    · rfl
  have hinstall : (v.install a).armings = v.armings := by
    rw [install]
    split <;> rfl
  have hlaunch : ∀ reading, (v.launch a reading).1.armings = v.armings := by
    intro reading
    rw [View.launch]
    split
    · exact hfire
    · exact hinstall
  cases launch with
  | prompt => exact hlaunch 0
  | overtaken => exact hlaunch 1
  | refused =>
    rw [finish, refuse]
    split
    · exact v.armings_on _
    · rfl

namespace Alike

variable {ρ : Nat → Nat} {k : Nat} {v v' : View}

/-- A view without changes in flight and deadlines. -/
theorem of_buffer {b b' : Option Buffer}
    (h : ∃ g timer, b' = b.map (Buffer.renumber ρ g timer)) :
    Alike ρ k { buffer := b } { buffer := b' } :=
  ⟨h, rfl, .nil⟩

theorem mono {n : Nat} (h : Alike ρ (k + n) v v') : Alike ρ k v v' :=
  ⟨h.buffer, h.armed, h.armings.imp fun _ _ ha => ⟨ha.1, ha.2.mono⟩⟩

theorem waitingIds_eq (h : Alike ρ k v v') : v'.waitingIds = v.waitingIds.map ρ := by
  obtain ⟨g, timer, hbuffer⟩ := h.buffer
  rw [waitingIds, waitingIds, hbuffer]
  cases v.buffer with
  | none => rfl
  | some b => exact b.waitingIds_renumber ρ g timer

theorem summary?_eq (h : Alike ρ k v v') : v'.summary? = v.summary? := by
  obtain ⟨g, timer, hbuffer⟩ := h.buffer
  rw [summary?, summary?, hbuffer, h.armed, Option.map_map]
  rfl

theorem isSome_eq (h : Alike ρ k v v') : v'.buffer.isSome = v.buffer.isSome := by
  obtain ⟨g, timer, hbuffer⟩ := h.buffer
  rw [hbuffer, Option.isSome_map]

theorem disarm (h : Alike ρ k v v') : Alike ρ k v.disarm v'.disarm := ⟨h.buffer, rfl, h.armings⟩

/-- A change of the same age is of the current generation in both. -/
theorem isCurrent_iff (h : Alike ρ k v v') {g g' : UInt64}
    (hage : SameAge k (v.since g) (v'.since g')) :
    v'.isCurrent g' = true ↔ v.isCurrent g = true := by
  rw [View.isCurrent_iff, View.isCurrent_iff, h.isSome_eq, hage.eq_zero_iff]

/-! ## What is done to both -/

/-- Operations that do the same to both buffers. -/
theorem on {opens : Nat} {f f' : Buffer → Buffer × Effects} (h : Alike ρ (k + opens) v v')
    (hf : Buffer.Renumbers ρ opens f f') :
    Alike ρ k (v.on f).1 (v'.on f').1 ∧ (v'.on f').2 = renumberEnded ρ (v.on f).2 := by
  obtain ⟨g, timer, hbuffer⟩ := h.buffer
  cases hb : v.buffer with
  | none =>
    rw [hb, Option.map_none] at hbuffer
    simp only [View.on, hb, hbuffer]
    exact ⟨h.mono, rfl⟩
  | some b =>
    rw [hb, Option.map_some] at hbuffer
    obtain ⟨⟨timer', hnew⟩, hended, hopens⟩ := hf b g timer
    simp only [View.on, hb, hbuffer]
    refine ⟨⟨⟨g + UInt64.ofNat opens, timer', congrArg some hnew⟩, h.armed, ?_⟩, hended⟩
    have hold : v.generation = b.state.generation := by rw [generation, hb]; rfl
    have hold' : v'.generation = g := by rw [generation, hbuffer]; rfl
    refine h.armings.imp fun a a' ha => ⟨ha.1, ?_⟩
    have hage := ha.2.add
    simp only [since, hold, hold'] at hage
    have hsince : View.since { v with buffer := some (f b).1 } a.1
        = b.state.generation - a.1 + UInt64.ofNat opens := by
      simp only [since, generation, Option.map_some, Option.getD_some, hopens]
      grind
    have hsince' : View.since { v' with buffer := some (f' (b.renumber ρ g timer)).1 } a'.1
        = g - a'.1 + UInt64.ofNat opens := by
      have hgeneration : (f' (b.renumber ρ g timer)).1.state.generation
          = g + UInt64.ofNat opens := by rw [hnew]; rfl
      simp only [since, generation, Option.map_some, Option.getD_some, hgeneration]
      grind
    rw [hsince, hsince']
    exact hage

theorem ring (h : Alike ρ k v v') :
    Alike ρ k v.ring.1 v'.ring.1 ∧ v'.ring.2 = renumberEnded ρ v.ring.2 :=
  h.disarm.on (Buffer.renumbers_reachDeadline ρ)

variable {a a' : UInt64 × Instant}

theorem fire (h : Alike ρ k v v') (hage : SameAge k (v.since a.1) (v'.since a'.1)) :
    Alike ρ k (v.fire a.1).1 (v'.fire a'.1).1
      ∧ (v'.fire a'.1).2 = renumberEnded ρ (v.fire a.1).2 := by
  rw [View.fire, View.fire, if_congr (h.isCurrent_iff hage) rfl rfl]
  split
  · exact h.ring
  · exact ⟨h, rfl⟩

theorem install (h : Alike ρ k v v') (hsame : a'.2 = a.2)
    (hage : SameAge k (v.since a.1) (v'.since a'.1)) :
    Alike ρ k (v.install a) (v'.install a') := by
  obtain ⟨g, timer, hbuffer⟩ := h.buffer
  have hreached : v'.buffer.any (·.state.deadlineReached)
      = v.buffer.any (·.state.deadlineReached) := by
    rw [hbuffer]
    cases v.buffer <;> rfl
  rw [View.install, View.install, hreached, hsame]
  rw [if_congr (and_congr_left' (h.isCurrent_iff hage)) rfl rfl]
  split
  · exact ⟨h.buffer, rfl, h.armings⟩
  · exact h

/-- The second half of a change of the same age. -/
theorem finish (h : Alike ρ k v v') (hsame : a'.2 = a.2)
    (hage : SameAge k (v.since a.1) (v'.since a'.1)) (launch : Launch) :
    Alike ρ k (v.finish a launch).1 (v'.finish a' launch).1
      ∧ (v'.finish a' launch).2 = renumberEnded ρ (v.finish a launch).2 := by
  have hlaunch : ∀ reading, Alike ρ k (v.launch a reading).1 (v'.launch a' reading).1
      ∧ (v'.launch a' reading).2 = renumberEnded ρ (v.launch a reading).2 := by
    intro reading
    rw [View.launch, View.launch, hsame]
    split
    · exact h.fire hage
    · exact ⟨h.install hsame hage, rfl⟩
  cases launch with
  | prompt => exact hlaunch 0
  | overtaken => exact hlaunch 1
  | refused =>
    rw [View.finish, View.finish, View.refuse, View.refuse,
      if_congr (h.isCurrent_iff hage) rfl rfl]
    split
    · exact h.on (Buffer.renumbers_reachDeadline ρ)
    · exact ⟨h, rfl⟩

/-- A change enters flight in both views, or in neither; it is as old in the one as in the
    other. -/
theorem enterFlight (h : Alike ρ k v v') (deadline : Option Instant) :
    Alike ρ k (v.enterFlight deadline) (v'.enterFlight deadline) := by
  obtain ⟨buffer, armed, armings⟩ := v
  obtain ⟨buffer', armed', armings'⟩ := v'
  obtain ⟨g, timer, rfl⟩ : ∃ g timer, buffer' = buffer.map (Buffer.renumber ρ g timer) := h.buffer
  cases buffer with
  | none => exact h
  | some b =>
    cases deadline with
    | none => exact h
    | some deadline =>
      show Alike ρ k
        (if deadline.hasCome 0 ∨ isThreadName b.threadName = false then _ else _)
        (if deadline.hasCome 0 ∨ isThreadName b.threadName = false then _ else _)
      split
      · exact h
      · refine ⟨h.buffer, h.armed, .cons ⟨rfl, Or.inl ?_⟩ h.armings⟩
        have hzero : ∀ g : UInt64, g - g = 0 := UInt64.sub_self
        exact (hzero b.state.generation).trans (hzero g).symm

/-- A deed done to both keeps them alike, and ends the same calls. -/
theorem act {d : Deed} (h : Alike ρ (k + d.opens) v v') :
    Alike ρ k (v.act d).1 (v'.act (d.renumber ρ)).1
      ∧ (v'.act (d.renumber ρ)).2 = renumberEnded ρ (v.act d).2 := by
  cases d with
  | create c => exact ⟨.of_buffer ⟨0, none, rfl⟩, rfl⟩
  | write chunk => exact h.on (Buffer.renumbers_write ρ chunk)
  | close => exact h.disarm.on (Buffer.renumbers_close ρ)
  | read id call => exact h.on (Buffer.renumbers_read ρ id call)
  | startDeadline lead =>
    obtain ⟨hfirst, hended⟩ :=
      h.disarm.on (Buffer.renumbers_startDeadline ρ 0 (lead.map (Lead.instant 0)))
    exact ⟨hfirst.enterFlight _, hended⟩
  | finishDeadline launch =>
    have hold : Alike ρ k v v' := h
    obtain ⟨hbuffer, harmed, harmings⟩ := h
    show Alike ρ k (v.act (.finishDeadline launch)).1 (v'.act (.finishDeadline launch)).1
      ∧ (v'.act (.finishDeadline launch)).2 = renumberEnded ρ (v.act (.finishDeadline launch)).2
    unfold View.act
    cases hv : v.armings with
    | nil =>
      rw [hv, List.forall₂_nil_left_iff] at harmings
      rw [harmings]
      exact ⟨hold, rfl⟩
    | cons a rest =>
      rw [hv, List.forall₂_cons_left_iff] at harmings
      obtain ⟨a', rest', ⟨hsame, hage⟩, hrest, hv'⟩ := harmings
      rw [hv']
      obtain ⟨hfinished, hended⟩ := hold.finish hsame hage launch
      have hrest := hfinished.armings
      rw [armings_finish, armings_finish, hv, hv', List.forall₂_cons] at hrest
      exact ⟨⟨hfinished.buffer, hfinished.armed, hrest.2⟩, hended⟩

/-! ## Time -/

theorem age (h : Alike ρ k v v') : Alike ρ k v.age v'.age := by
  refine ⟨h.buffer, congrArg (Option.map (Instant.ahead 1)) h.armed, ?_⟩
  show List.Forall₂ _ (v.armings.map _) (v'.armings.map _)
  rw [List.forall₂_map_left_iff, List.forall₂_map_right_iff]
  exact h.armings.imp fun a a' ha => ⟨congrArg (Instant.ahead 1) ha.1, ha.2⟩

/-- Time keeps them alike, and ends the same calls. -/
theorem elapse (h : Alike ρ k v v') :
    Alike ρ k v.elapse.1 v'.elapse.1 ∧ v'.elapse.2 = renumberEnded ρ v.elapse.2 := by
  rw [View.elapse, View.elapse, h.armed]
  split
  · exact h.age.ring
  · exact ⟨h.age, rfl⟩

end Alike

/-- How many generations a history opens. -/
def opens : List (Option Deed) → Nat
  | [] => 0
  | none :: rest => opens rest
  | some d :: rest => d.opens + opens rest

/-- A whole history, by induction on it. -/
theorem Alike.follow {ρ : Nat → Nat} {k : Nat} {v v' : View} {ds : List (Option Deed)}
    (h : Alike ρ (k + opens ds) v v') :
    Alike ρ k (v.follow ds).1 (v'.follow (ds.map (Option.map (Deed.renumber ρ)))).1
      ∧ (v'.follow (ds.map (Option.map (Deed.renumber ρ)))).2
        = renumberEnded ρ (v.follow ds).2 := by
  induction ds generalizing v v' with
  | nil => exact ⟨h, rfl⟩
  | cons d rest ih =>
    have hstep : Alike ρ (k + opens rest) (v.step d).1 (v'.step (d.map (Deed.renumber ρ))).1
        ∧ (v'.step (d.map (Deed.renumber ρ))).2 = renumberEnded ρ (v.step d).2 := by
      cases d with
      | none => exact Alike.elapse h
      | some d =>
        refine Alike.act ?_
        rw [opens, Nat.add_comm d.opens, ← Nat.add_assoc] at h
        exact h
    obtain ⟨hfirst, hended⟩ := hstep
    obtain ⟨hlast, hended'⟩ := ih hfirst
    refine ⟨hlast, ?_⟩
    simp only [List.map_cons, View.follow, hended, hended', renumberEnded, List.map_append]

end View

end StreamBuffer
