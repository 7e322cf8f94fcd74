/-
  StreamBuffer.Proofs.Session.Ownership

  The books on timers, kept over turns in any order.

  A timer that may still come is installed in its buffer, or adrift in the change that
  started it (`Sound.pending`). A buffer takes a timer only from a change of its own
  generation, and while such a change is in flight the buffer has none (`Sound.vacant`), so
  that none is overwritten. Generations tell changes apart for as long as they do not wrap
  around.

  Most turns only take timers away (`Sheds`), and these keep the books for one reason
  (`Sound.shed`); those that start a timer, open a change or hand a timer over have a lemma
  each. `Sound.turn` puts them together.
-/
import StreamBuffer.Proofs.Session.Alarms
import StreamBuffer.Proofs.Session.Turn
import Mathlib.Data.List.Basic

namespace StreamBuffer

namespace Session

/-! ## The books -/

/-- The books on timers. `l` are the timers that are still to be handed over, and no more
    than `n` generations were opened. -/
structure Sound (s : Session) (l : List (Arming × Nat)) (n : Nat) : Prop where
  generation_le : ∀ {b : Nat} {buffer : Buffer}, s.buffers[b]? = some buffer →
    buffer.state.generation.toNat ≤ n
  -- the changes in flight: of generations that were opened, and no two of the same
  arming_le : ∀ a ∈ s.armings, ∃ buffer : Buffer, s.buffers[a.buffer]? = some buffer
    ∧ a.generation ≤ buffer.state.generation
  armings_nodup : s.armings.Nodup
  arming_eq : ∀ a ∈ s.armings, ∀ a' ∈ s.armings, a.buffer = a'.buffer →
    a.generation = a'.generation → a = a'
  -- the timers adrift: each of one change in flight, and started for it
  adrift_nodup : l.Nodup
  adrift_eq : ∀ {a : Arming} {i j : Nat}, (a, i) ∈ l → (a, j) ∈ l → i = j
  adrift : ∀ {a : Arming} {i : Nat}, (a, i) ∈ l →
    a ∈ s.armings ∧ s.origin? i = some (a.buffer, a.generation)
  -- every timer that may still come is one or the other
  pending : ∀ {i : Nat}, s.IsPending i →
    (∃ (b : Nat) (buffer : Buffer), s.buffers[b]? = some buffer ∧ buffer.state.timer = some i)
      ∨ ∃ a, (a, i) ∈ l
  installed : ∀ {b : Nat} {buffer : Buffer} {i : Nat}, s.buffers[b]? = some buffer →
    buffer.state.timer = some i → s.origin? i = some (b, buffer.state.generation)
  -- where a timer may be handed over, there is room for it
  vacant : ∀ a ∈ s.armings, ∀ {buffer : Buffer}, s.buffers[a.buffer]? = some buffer →
    buffer.state.generation = a.generation → buffer.state.timer = none

variable {s t : Session} {l : List (Arming × Nat)} {n k : Nat}

/-! ## Timers only go away -/

/-- A buffer keeps its timer and its generation, or it has no timer afterwards; it opens no
    more than `k` generations. -/
def Retains (k : Nat) (old new : Buffer) : Prop :=
  (new.state.timer = none
      ∨ (new.state.timer = old.state.timer ∧ new.state.generation = old.state.generation))
    ∧ old.state.generation.toNat ≤ new.state.generation.toNat
    ∧ new.state.generation.toNat ≤ old.state.generation.toNat + k

theorem Retains.refl (k : Nat) (b : Buffer) : Retains k b b :=
  ⟨Or.inr ⟨rfl, rfl⟩, Nat.le_refl _, Nat.le_add_right _ k⟩

theorem retains_act {b : Buffer} {a : Buffer.Action} (ha : a.takes = false)
    (hwrap : b.state.generation.toNat + a.opens < UInt64.size) :
    Retains a.opens b (b.act a).1 := by
  rcases b.timer_act_cases ha with ⟨hkept, hsame⟩ | ⟨hnone, -, hopened⟩
  · have hgeneration := congrArg UInt64.toNat hsame
    exact ⟨Or.inr ⟨hkept, hsame⟩, by omega, by omega⟩
  · have hgeneration : (b.act a).1.state.generation.toNat
        = b.state.generation.toNat + a.opens := by
      rw [hopened]
      exact toNat_add_ofNat hwrap
    exact ⟨Or.inl hnone, by omega, by omega⟩

/-- From `s` to `t` timers only go away, and a timer that its buffer has no more does not
    come; no more than `k` generations are opened. -/
structure Sheds (s : Session) (k : Nat) (t : Session) : Prop where
  armings_eq : t.armings = s.armings
  origin_eq : ∀ i, t.origin? i = s.origin? i
  buffers : ∀ b : Nat, Option.Rel (Retains k) s.buffers[b]? t.buffers[b]?
  pending : ∀ {i}, t.IsPending i → s.IsPending i
  retained : ∀ {i}, t.IsPending i → ∀ {b : Nat} {old new : Buffer},
    s.buffers[b]? = some old → t.buffers[b]? = some new →
    old.state.timer = some i → new.state.timer = some i

theorem Sheds.forth (h : s.Sheds k t) {b : Nat} {old : Buffer} (hb : s.buffers[b]? = some old) :
    ∃ new, t.buffers[b]? = some new ∧ Retains k old new := by
  have hrel := h.buffers b
  rw [hb] at hrel
  cases hnew : t.buffers[b]? with
  | none =>
    rw [hnew] at hrel
    cases hrel
  | some new =>
    rw [hnew] at hrel
    cases hrel with
    | some hretains => exact ⟨new, rfl, hretains⟩

theorem Sheds.back (h : s.Sheds k t) {b : Nat} {new : Buffer} (hb : t.buffers[b]? = some new) :
    ∃ old, s.buffers[b]? = some old ∧ Retains k old new := by
  have hrel := h.buffers b
  rw [hb] at hrel
  cases hold : s.buffers[b]? with
  | none =>
    rw [hold] at hrel
    cases hrel
  | some old =>
    rw [hold] at hrel
    cases hrel with
    | some hretains => exact ⟨old, rfl, hretains⟩

/-- The buffers are as they were, and timers may be over. -/
theorem Sheds.of_eq (hbuffers : t.buffers = s.buffers) (harmings : t.armings = s.armings)
    (horigin : ∀ i, t.origin? i = s.origin? i)
    (hpending : ∀ {i}, t.IsPending i → s.IsPending i) : s.Sheds 0 t where
  armings_eq := harmings
  origin_eq := horigin
  buffers b := by
    rw [hbuffers]
    cases s.buffers[b]? with
    | none => exact .none
    | some buffer => exact .some (.refl 0 buffer)
  pending := hpending
  retained _ b old new hold hnew htimer := by
    rw [hbuffers, hold] at hnew
    obtain rfl := Option.some.inj hnew
    exact htimer

/-- An action on a buffer, other than that a timer is taken. -/
theorem Sheds.act (s : Session) (b : Nat) {a : Buffer.Action} (ha : a.takes = false)
    (hwrap : ∀ {buffer : Buffer}, s.buffers[b]? = some buffer →
      buffer.state.generation.toNat + a.opens < UInt64.size) :
    s.Sheds a.opens (s.onBuffer b (·.act a)).1 where
  armings_eq := armings_onBuffer s b _
  origin_eq := origin?_onBuffer s b _
  buffers x := by
    by_cases hx : b = x
    · subst hx
      cases hb : s.buffers[b]? with
      | none =>
        rw [onBuffer_of_none hb, hb]
        exact .none
      | some buffer =>
        rw [getElem?_onBuffer_self hb]
        exact .some (retains_act ha (hwrap hb))
    · rw [getElem?_onBuffer_ne hx]
      cases s.buffers[x]? with
      | none => exact .none
      | some buffer => exact .some (.refl _ buffer)
  pending hi := (isPending_of_onBuffer hi).1
  retained {i} hi x old new hold hnew htimer := by
    by_cases hx : b = x
    · subst hx
      obtain rfl := Option.some.inj ((getElem?_onBuffer_self hold _).symm.trans hnew)
      -- a timer that was given up was stopped
      rcases old.timer_act_cases ha with ⟨hkept, -⟩ | ⟨-, hreleased, -⟩
      · exact hkept.trans htimer
      · exact absurd (hreleased i htimer) ((isPending_of_onBuffer hi).2 old hold)
    · rw [getElem?_onBuffer_ne hx, hold] at hnew
      obtain rfl := Option.some.inj hnew
      exact htimer

namespace Sound

/-- The books stay in order while timers only go away. -/
theorem shed (h : s.Sound l n) (hsheds : s.Sheds k t) : t.Sound l (n + k) where
  generation_le := by
    intro b buffer hb
    obtain ⟨old, hold, -, -, hle⟩ := hsheds.back hb
    have := h.generation_le hold
    omega
  arming_le := by
    rw [hsheds.armings_eq]
    intro a ha
    obtain ⟨old, hold, hle⟩ := h.arming_le a ha
    obtain ⟨new, hnew, -, hge, -⟩ := hsheds.forth hold
    exact ⟨new, hnew, UInt64.le_iff_toNat_le.mpr (Nat.le_trans hle hge)⟩
  armings_nodup := by
    rw [hsheds.armings_eq]
    exact h.armings_nodup
  arming_eq := by
    rw [hsheds.armings_eq]
    exact h.arming_eq
  adrift_nodup := h.adrift_nodup
  adrift_eq := h.adrift_eq
  adrift := by
    rw [hsheds.armings_eq]
    intro a i ha
    rw [hsheds.origin_eq]
    exact h.adrift ha
  pending := by
    intro i hi
    rcases h.pending (hsheds.pending hi) with ⟨b, old, hold, htimer⟩ | hadrift
    · -- its buffer still has it, since it would have been stopped with the loss
      obtain ⟨new, hnew, -⟩ := hsheds.forth hold
      exact Or.inl ⟨b, new, hnew, hsheds.retained hi hold hnew htimer⟩
    · exact Or.inr hadrift
  installed := by
    intro b buffer i hb htimer
    obtain ⟨old, hold, hnone | ⟨hkept, hsame⟩, -⟩ := hsheds.back hb
    · rw [hnone] at htimer
      cases htimer
    · rw [hsheds.origin_eq, hsame]
      exact h.installed hold (hkept.symm.trans htimer)
  vacant := by
    rw [hsheds.armings_eq]
    intro a ha buffer hb hcurrent
    obtain ⟨old, hold, hnone | ⟨hkept, hsame⟩, -⟩ := hsheds.back hb
    · exact hnone
    · rw [hkept]
      exact h.vacant a ha hold (hsame.symm.trans hcurrent)

theorem act (h : s.Sound l n) (b : Nat) {a : Buffer.Action}
    (ha : a.takes = false)
    (hn : n + a.opens < UInt64.size) :
    (s.onBuffer b (·.act a)).1.Sound l (n + a.opens) := by
  refine h.shed (.act s b ha fun hb => ?_)
  have := h.generation_le hb
  omega

/-- The books say nothing of the clock, the handles and the number of calls, and timers
    may be over. -/
theorem of_eq (h : s.Sound l n) (hbuffers : t.buffers = s.buffers)
    (harmings : t.armings = s.armings) (horigin : ∀ i, t.origin? i = s.origin? i)
    (hpending : ∀ {i}, t.IsPending i → s.IsPending i) : t.Sound l n :=
  h.shed (.of_eq hbuffers harmings horigin hpending)

/-! ## What each turn keeps -/

/-- A new buffer has no timer, and is of generation zero. -/
theorem create (h : s.Sound l n) (c : Config) : (s.create c).1.Sound l n := by
  have hold : ∀ {b : Nat} {buffer : Buffer}, s.buffers[b]? = some buffer →
      (s.create c).1.buffers[b]? = some buffer := fun hb =>
    (List.getElem?_append_left (List.getElem?_eq_some_iff.mp hb).1).trans hb
  have hcases : ∀ {b : Nat} {buffer : Buffer}, (s.create c).1.buffers[b]? = some buffer →
      s.buffers[b]? = some buffer ∨ buffer = .ofConfig c := by
    intro b buffer hb
    by_cases hlt : b < s.buffers.length
    · exact Or.inl ((List.getElem?_append_left hlt).symm.trans hb)
    · have hnew := (List.getElem?_append_right (Nat.le_of_not_lt hlt)).symm.trans hb
      exact Or.inr (List.mem_singleton.mp (List.mem_of_getElem? hnew))
  refine { h with generation_le := ?_, arming_le := ?_, pending := ?_, installed := ?_,
                  vacant := ?_ }
  · intro b buffer hb
    rcases hcases hb with hb | rfl
    · exact h.generation_le hb
    · exact Nat.zero_le n
  · intro a ha
    obtain ⟨buffer, hb, hle⟩ := h.arming_le a ha
    exact ⟨buffer, hold hb, hle⟩
  · intro i hi
    rcases h.pending hi with ⟨b, buffer, hb, htimer⟩ | hadrift
    · exact Or.inl ⟨b, buffer, hold hb, htimer⟩
    · exact Or.inr hadrift
  · intro b buffer i hb htimer
    rcases hcases hb with hb | rfl
    · exact h.installed hb htimer
    · cases htimer
  · intro a ha buffer hb hcurrent
    rcases hcases hb with hb | rfl
    · exact h.vacant a ha hb hcurrent
    · rfl

/-- The books of a session without buffers are empty. -/
theorem start (c : Config) : (({} : Session).create c).1.Sound [] 0 := by
  have hempty : ({} : Session).Sound [] 0 :=
    { generation_le := nofun
      arming_le := nofun
      armings_nodup := List.nodup_nil
      arming_eq := nofun
      adrift_nodup := List.nodup_nil
      adrift_eq := nofun
      adrift := nofun
      pending := nofun
      installed := nofun
      vacant := nofun }
  exact hempty.create c

/-- A buffer that nothing holds on to gives its timer up. -/
theorem retire (h : s.Sound l n) (hn : n < UInt64.size) (b : Nat) : (s.retire b).Sound l n := by
  rw [Session.retire]
  split
  · exact h
  · exact h.act b (a := .abandon) rfl hn

/-- A timer's thread wakes: its timer is over if the callback runs. -/
theorem wakeAlarm (h : s.Sound l n) (hn : n < UInt64.size) (reading i : Nat) :
    (s.wakeAlarm reading i).1.Sound l n := by
  cases hi : s.alarms[i]? with
  | none =>
    rw [Session.wakeAlarm, hi]
    exact h
  | some a =>
    have hwoken : (s.onTimer i (·.wake reading)).Sound l n :=
      h.of_eq rfl rfl (fun j => origin?_onTimer s i j _)
        (isPending_of_onTimer_of_cell fun _ => Timer.cell_of_wake)
    rw [Session.wakeAlarm, hi]
    dsimp only
    rw [set_eq_onTimer hi (·.wake reading)]
    split
    · -- the callback runs to its end, and then it returns
      have hfired := hwoken.act a.buffer (a := .fire a.generation) rfl hn
      refine hfired.of_eq rfl rfl (fun j => origin?_onTimer _ i j Timer.leave) ?_
      exact isPending_of_onTimer_of_cell (g := Timer.leave) fun t ht => t.cell_leave.symm.trans ht
    · exact hwoken
    · exact hwoken

/-- A change in flight of the generation that its buffer is of, and no other change is. -/
theorem inFlight (h : s.Sound l n) {a : Arming} {buffer : Buffer}
    (hb : s.buffers[a.buffer]? = some buffer) (hcurrent : a.generation = buffer.state.generation)
    (htimer : buffer.state.timer = none)
    (hother : ∀ a' ∈ s.armings, a'.buffer = a.buffer → a'.generation ≠ a.generation) :
    ({ s with armings := a :: s.armings } : Session).Sound l n := by
  refine { h with arming_le := ?_, armings_nodup := ?_, arming_eq := ?_, adrift := ?_,
                  vacant := ?_ }
  · intro a' ha'
    rcases List.mem_cons.mp ha' with rfl | ha'
    · exact ⟨buffer, hb, UInt64.le_of_eq hcurrent⟩
    · exact h.arming_le a' ha'
  · exact List.nodup_cons.mpr ⟨fun ha => hother a ha rfl rfl, h.armings_nodup⟩
  · intro a₁ h₁ a₂ h₂ hbuffer hgeneration
    rcases List.mem_cons.mp h₁ with rfl | hin₁ <;> rcases List.mem_cons.mp h₂ with rfl | hin₂
    · rfl
    · exact absurd hgeneration.symm (hother a₂ hin₂ hbuffer.symm)
    · exact absurd hgeneration (hother a₁ hin₁ hbuffer)
    · exact h.arming_eq a₁ hin₁ a₂ hin₂ hbuffer hgeneration
  · intro a' i hi
    obtain ⟨ha', horigin⟩ := h.adrift hi
    exact ⟨List.mem_cons_of_mem a ha', horigin⟩
  · intro a' ha' buffer' hb' hgeneration
    rcases List.mem_cons.mp ha' with rfl | ha'
    · obtain rfl := Option.some.inj (hb.symm.trans hb')
      exact htimer
    · exact h.vacant a' ha' hb' hgeneration

/-- The first half of a change of a deadline opens a generation that no change in flight
    is of, and leaves the buffer without a timer. -/
theorem startDeadline (h : s.Sound l n) (hn : n + 1 < UInt64.size) (b : Nat)
    (lead : Option Lead) : (s.startDeadline b lead).1.Sound l (n + 1) := by
  have hcases := s.startDeadline_cases b lead
  dsimp only at hcases
  have hfirst : (s.onBuffer b
      (·.startDeadline s.now (lead.map (Lead.instant s.now)))).1.Sound l (n + 1) :=
    h.act b (a := .startDeadline s.now (lead.map (Lead.instant s.now))) rfl hn
  rcases hcases with ⟨hwhole, -⟩ | ⟨a, new, hnew, rfl, hcurrent, hinFlight, -⟩
  · rw [hwhole]
    exact hfirst
  · rw [hinFlight]
    cases hold : s.buffers[a.buffer]? with
    | none =>
      rw [onBuffer_of_none hold, hold] at hnew
      cases hnew
    | some old =>
      obtain rfl := Option.some.inj ((getElem?_onBuffer_self hold _).symm.trans hnew)
      obtain ⟨-, -, htimer, hgeneration⟩ :=
        old.fields_act (.startDeadline s.now (lead.map (Lead.instant s.now)))
      have hle := h.generation_le hold
      have hopened : a.generation.toNat = old.state.generation.toNat + 1 := by
        rw [hcurrent]
        exact (congrArg UInt64.toNat hgeneration).trans (toNat_add_ofNat (k := 1) (by omega))
      refine hfirst.inFlight hnew hcurrent htimer fun a' ha' hbuffer heq => ?_
      -- changes in flight are of generations that were opened before
      rw [armings_onBuffer] at ha'
      obtain ⟨buffer, hb, hbefore⟩ := h.arming_le a' ha'
      rw [hbuffer] at hb
      obtain rfl := Option.some.inj (hold.symm.trans hb)
      have hle' := UInt64.le_iff_toNat_le.mp hbefore
      rw [heq] at hle'
      omega

/-- A timer whose thread was started is adrift until it is handed over. -/
theorem startThread (h : s.Sound l n) {a : Arming} (ha : a ∈ s.armings)
    (hnew : ∀ i, (a, i) ∉ l) : (s.startThread a).Sound ((a, s.alarms.length) :: l) n := by
  have horigin : ∀ {i : Nat} {o : Nat × UInt64}, s.origin? i = some o →
      (s.startThread a).origin? i = some o := by
    intro i o hi
    obtain ⟨alarm, halarm, -⟩ := Option.map_eq_some_iff.mp hi
    rw [← hi, origin?, origin?, Session.startThread,
      List.getElem?_append_left (List.getElem?_eq_some_iff.mp halarm).1]
  have hself : (s.startThread a).origin? s.alarms.length = some (a.buffer, a.generation) := by
    rw [origin?, Session.startThread, List.getElem?_concat_length]
    rfl
  refine { h with adrift_nodup := ?_, adrift_eq := ?_, adrift := ?_, pending := ?_,
                  installed := ?_ }
  · exact List.nodup_cons.mpr ⟨hnew _, h.adrift_nodup⟩
  · intro a' i j hi hj
    rcases List.mem_cons.mp hi with hi | hi <;> rcases List.mem_cons.mp hj with hj | hj
    · cases hi
      cases hj
      rfl
    · cases hi
      exact absurd hj (hnew j)
    · cases hj
      exact absurd hi (hnew i)
    · exact h.adrift_eq hi hj
  · intro a' i hi
    rcases List.mem_cons.mp hi with hi | hi
    · cases hi
      exact ⟨ha, hself⟩
    · exact ⟨(h.adrift hi).1, horigin (h.adrift hi).2⟩
  · rintro i ⟨alarm, halarm, hcell⟩
    -- the timers before it are where they were
    by_cases hlt : i < s.alarms.length
    · have hpending : s.IsPending i :=
        ⟨alarm, (List.getElem?_append_left hlt).symm.trans halarm, hcell⟩
      rcases h.pending hpending with hinstalled | ⟨a', ha'⟩
      · exact Or.inl hinstalled
      · exact Or.inr ⟨a', List.mem_cons_of_mem _ ha'⟩
    · have hle : i < (s.alarms ++ [a.alarm]).length := (List.getElem?_eq_some_iff.mp halarm).1
      rw [List.length_append, List.length_singleton] at hle
      obtain rfl : i = s.alarms.length := by omega
      exact Or.inr ⟨a, List.mem_cons_self⟩
  · exact fun hb htimer => horigin (h.installed hb htimer)

/-- A change without a timer to hand over is over. -/
theorem forget (h : s.Sound l n) {a : Arming} (hfree : ∀ i, (a, i) ∉ l) :
    ({ s with armings := s.armings.erase a } : Session).Sound l n := by
  have hsub : ∀ {a'}, a' ∈ s.armings.erase a → a' ∈ s.armings := List.mem_of_mem_erase
  refine { h with
    arming_le := fun a' ha' => h.arming_le a' (hsub ha')
    armings_nodup := h.armings_nodup.erase a
    arming_eq := fun a₁ h₁ a₂ h₂ => h.arming_eq a₁ (hsub h₁) a₂ (hsub h₂)
    adrift := ?_
    vacant := fun a' ha' => h.vacant a' (hsub ha') }
  intro a' i hi
  obtain ⟨ha', horigin⟩ := h.adrift hi
  refine ⟨(List.mem_erase_of_ne ?_).mpr ha', horigin⟩
  rintro rfl
  exact hfree i hi

/-- The second half of a change whose thread was refused. -/
theorem refuse (h : s.Sound l n) (hn : n < UInt64.size) {a : Arming}
    (hfree : ∀ i, (a, i) ∉ l) : (s.conclude a (·.startRefused a.generation)).Sound l n := by
  have hsecond := h.act a.buffer (a := .startRefused a.generation) rfl hn
  exact (hsecond.forget hfree).retire hn a.buffer

/-- A timer that does not come needs not be handed over. -/
theorem settle (h : s.Sound l n) (a : Arming) {i : Nat} (hi : ¬ s.IsPending i) :
    s.Sound (l.erase (a, i)) n := by
  refine { h with
    adrift_nodup := h.adrift_nodup.erase _
    adrift_eq := fun hj hk => h.adrift_eq (List.mem_of_mem_erase hj) (List.mem_of_mem_erase hk)
    adrift := fun hj => h.adrift (List.mem_of_mem_erase hj)
    pending := ?_ }
  intro j hj
  rcases h.pending hj with hinstalled | ⟨a', ha'⟩
  · exact Or.inl hinstalled
  · refine Or.inr ⟨a', (List.mem_erase_of_ne ?_).mpr ha'⟩
    rintro ⟨⟩
    exact hi hj

/-- No timer but its own is adrift in a change. -/
theorem not_mem_erase (h : s.Sound l n) {a : Arming} {i : Nat} (ha : (a, i) ∈ l) (j : Nat) :
    (a, j) ∉ l.erase (a, i) := by
  intro hj
  obtain rfl := h.adrift_eq (List.mem_of_mem_erase hj) ha
  exact h.adrift_nodup.not_mem_erase hj

/-- A timer of the buffer's generation is handed over, and the change is over: the buffer
    had none, and no other change is of this generation. -/
theorem take (h : s.Sound l n) {a : Arming} {i : Nat} (ha : (a, i) ∈ l) {buffer : Buffer}
    {f : Buffer → Buffer × Effects} (hb : s.buffers[a.buffer]? = some buffer)
    (hcurrent : buffer.state.generation = a.generation)
    (htimer : (f buffer).1.state.timer = some i)
    (hgeneration : (f buffer).1.state.generation = buffer.state.generation) :
    ({ (s.onBuffer a.buffer f).1 with armings := s.armings.erase a } : Session).Sound
      (l.erase (a, i)) n := by
  obtain ⟨hmem, horigin⟩ := h.adrift ha
  have hvacant := h.vacant a hmem hb hcurrent
  have hself := getElem?_onBuffer_self hb f
  have hsub : ∀ {a'}, a' ∈ s.armings.erase a → a' ∈ s.armings := List.mem_of_mem_erase
  refine {
    generation_le := ?_
    arming_le := ?_
    armings_nodup := h.armings_nodup.erase a
    arming_eq := fun a₁ h₁ a₂ h₂ => h.arming_eq a₁ (hsub h₁) a₂ (hsub h₂)
    adrift_nodup := h.adrift_nodup.erase _
    adrift_eq := fun hj hk => h.adrift_eq (List.mem_of_mem_erase hj) (List.mem_of_mem_erase hk)
    adrift := ?_
    pending := ?_
    installed := ?_
    vacant := ?_ }
  · intro x y hy
    rcases getElem?_onBuffer_cases hb hy with ⟨rfl, rfl⟩ | ⟨-, hold⟩
    · rw [hgeneration]
      exact h.generation_le hb
    · exact h.generation_le hold
  · intro a' ha'
    obtain ⟨y, hy, hle⟩ := h.arming_le a' (hsub ha')
    by_cases hx : a.buffer = a'.buffer
    · rw [← hx] at hy ⊢
      obtain rfl := Option.some.inj (hb.symm.trans hy)
      exact ⟨_, hself, hgeneration ▸ hle⟩
    · exact ⟨y, (getElem?_onBuffer_ne hx f).trans hy, hle⟩
  · intro a' j hj
    obtain ⟨ha', horigin'⟩ := h.adrift (List.mem_of_mem_erase hj)
    refine ⟨(List.mem_erase_of_ne ?_).mpr ha', (origin?_onBuffer s _ f j).trans horigin'⟩
    rintro rfl
    exact h.not_mem_erase ha j hj
  · intro j hj
    rcases h.pending (isPending_of_onBuffer hj).1 with ⟨x, y, hy, hinstalled⟩ | ⟨a', ha'⟩
    · -- no timer is overwritten
      have hx : a.buffer ≠ x := by
        rintro rfl
        obtain rfl := Option.some.inj (hb.symm.trans hy)
        rw [hvacant] at hinstalled
        cases hinstalled
      exact Or.inl ⟨x, y, (getElem?_onBuffer_ne hx f).trans hy, hinstalled⟩
    · by_cases hown : (a', j) = (a, i)
      · cases hown
        exact Or.inl ⟨a.buffer, _, hself, htimer⟩
      · exact Or.inr ⟨a', (List.mem_erase_of_ne hown).mpr ha'⟩
  · intro x y j hy hj
    refine (origin?_onBuffer s _ f j).trans ?_
    rcases getElem?_onBuffer_cases hb hy with ⟨rfl, rfl⟩ | ⟨-, hold⟩
    · obtain rfl := Option.some.inj (htimer.symm.trans hj)
      rw [hgeneration, hcurrent]
      exact horigin
    · exact h.installed hold hj
  · intro a' ha' y hy hgen
    rcases getElem?_onBuffer_cases hb hy with ⟨hx, rfl⟩ | ⟨-, hold⟩
    · -- a change of this generation would be the one that is over
      have heq : a = a' :=
        h.arming_eq a hmem a' (hsub ha') hx (hcurrent.symm.trans (hgeneration.symm.trans hgen))
      exact absurd (heq ▸ ha') h.armings_nodup.not_mem_erase
    · exact h.vacant a' (hsub ha') hold hgen

/-- The second half of a change whose timer was started: the timer is taken if the
    generation is still the change's own and the deadline was not reached, and it is
    stopped otherwise. -/
theorem handOver (h : s.Sound l n) (hn : n < UInt64.size) {a : Arming} {i : Nat}
    (ha : (a, i) ∈ l) : (s.conclude a (·.install a.generation i)).Sound (l.erase (a, i)) n := by
  refine retire ?_ hn a.buffer
  obtain ⟨buffer, hb, -⟩ := h.arming_le a (h.adrift ha).1
  rw [armings_onBuffer]
  rcases buffer.install_cases a.generation i with ⟨hcurrent, htaken⟩ | hgiven
  · refine h.take ha hb hcurrent ?_ ?_ <;> rw [htaken]
  · -- the buffer stays as it was, and the timer is stopped
    have hbuffers : (s.onBuffer a.buffer (·.install a.generation i)).1.buffers = s.buffers := by
      obtain ⟨hlt, hget⟩ := List.getElem?_eq_some_iff.mp hb
      rw [buffers_onBuffer hb, hgiven, ← hget]
      exact List.set_getElem_self hlt
    have hkept : (s.onBuffer a.buffer (·.install a.generation i)).1.Sound l n :=
      h.of_eq hbuffers (armings_onBuffer s _ _) (origin?_onBuffer s _ _)
        fun hj => (isPending_of_onBuffer hj).1
    have hstopped : ¬ (s.onBuffer a.buffer (·.install a.generation i)).1.IsPending i := by
      intro hi
      have hfree := (isPending_of_onBuffer hi).2 buffer hb
      rw [hgiven] at hfree
      exact hfree (List.mem_singleton_self i)
    have hover := (hkept.settle a hstopped).forget (h.not_mem_erase ha)
    rw [armings_onBuffer] at hover
    exact hover

/-- Every turn keeps the books. -/
theorem turn {p q : Point} (h : p.session.Sound p.adrift p.opened) (hturn : Turn p q)
    (hq : q.opened < UInt64.size) : q.session.Sound q.adrift q.opened := by
  cases hturn with
  | create s l n c => exact h.create c
  | share l n hb => exact h.of_eq rfl rfl (fun _ => rfl) fun hi => hi
  | @drop s handle b l n hb =>
    have hdropped : ({ s with handles := s.handles.set handle none } : Session).Sound l n :=
      h.of_eq rfl rfl (fun _ => rfl) fun hi => hi
    exact hdropped.retire hq b
  | write l n hb chunk => exact h.act _ (a := .write chunk) rfl hq
  | @read s b l n hb call =>
    have hstarted : ({ s with started := s.started + 1 } : Session).Sound l n :=
      h.of_eq rfl rfl (fun _ => rfl) fun hi => hi
    exact hstarted.act b (a := .read s.started call) rfl hq
  | close l n hb => exact h.act _ (a := .close) rfl hq
  | startDeadline l n hb lead => exact h.startDeadline hq _ lead
  | startThread n ha hnew => exact h.startThread ha hnew
  | refuse n ha hnew => exact h.refuse hq hnew
  | handOver s n ha => exact h.handOver hq ha
  | wake s l n reading i => exact h.wakeAlarm hq reading i
  | tick s l n => exact h.of_eq rfl rfl (fun _ => rfl) fun hi => hi

end Sound

end Session

end StreamBuffer
