/-
  StreamBuffer.Proofs.Buffer.Calls

  The calls of one buffer over an action: those that end in it and those that wait
  after it are those that waited before it and the one that it begins, each as often
  (`balanced_act`). So no call is doubled and none is lost, whoever is woken, in
  whatever order, and whoever waits again.
-/
import StreamBuffer.Proofs.Buffer.Action

namespace StreamBuffer

/-! ## Balances of calls -/

/-- The calls that ended and those that wait now are those that waited before and those
    that began since, each as often. -/
def Balanced (waited begun ended waiting : List Nat) : Prop :=
  (ended ++ waiting).Perm (waited ++ begun)

namespace Balanced

theorem refl (waiting : List Nat) : Balanced waiting [] [] waiting :=
  List.Perm.of_eq (List.append_nil waiting).symm

/-- Balances of two periods, one after the other, make that of both. -/
theorem trans {w₀ w₁ w₂ begun₁ begun₂ ended₁ ended₂ : List Nat}
    (h₁ : Balanced w₀ begun₁ ended₁ w₁) (h₂ : Balanced w₁ begun₂ ended₂ w₂) :
    Balanced w₀ (begun₁ ++ begun₂) (ended₁ ++ ended₂) w₂ := by
  unfold Balanced at h₁ h₂ ⊢
  -- those who wait in between are where the one balance ends and the other begins
  have hearlier := h₁.append_right begun₂
  have hlater := h₂.append_left ended₁
  rw [List.append_assoc, List.append_assoc] at hearlier
  rw [List.append_assoc]
  exact hlater.trans hearlier

/-- It does not matter which of the calls waited and which began. -/
theorem of_perm {w w' after begun begun' ended : List Nat} (h : Balanced w begun ended after)
    (hperm : (w ++ begun).Perm (w' ++ begun')) : Balanced w' begun' ended after :=
  List.Perm.trans h hperm

/-- Nor does the order in which calls ended. -/
theorem of_ended_perm {w after begun ended ended' : List Nat} (h : Balanced w begun ended after)
    (hperm : ended'.Perm ended) : Balanced w begun ended' after :=
  (hperm.append_right after).trans h

/-- Calls that wait elsewhere all the while do not matter. -/
theorem frame {w after begun ended : List Nat} (h : Balanced w begun ended after)
    (front back : List Nat) :
    Balanced (front ++ (w ++ back)) begun ended (front ++ (after ++ back)) := by
  refine List.perm_iff_count.mpr fun id => ?_
  have hcount := List.Perm.count_eq h id
  simp only [List.count_append] at hcount ⊢
  omega

/-- A call that began and ended may be left out. -/
theorem cancel {w after : List Nat} {id : Nat} (h : Balanced w [id] [id] after) :
    Balanced w [] [] after := by
  have hmoved : (id :: after).Perm (id :: w) := List.Perm.trans h (List.perm_append_singleton id w)
  have hrest : after.Perm w := hmoved.cons_inv
  exact hrest.trans (List.Perm.of_eq (List.append_nil w).symm)

end Balanced

namespace Buffer

/-- The numbers of the calls that ended. -/
def endedIds (ended : List (Nat × Outcome)) : List Nat := ended.map Prod.fst

theorem endedIds_append (first second : List (Nat × Outcome)) :
    endedIds (first ++ second) = endedIds first ++ endedIds second := List.map_append

/-! ## Readers that run -/

/-- One more call runs: it ends or it waits. -/
theorem balanced_accept (b : Buffer) {id : Nat} {a : Advance}
    (hstanding : ∀ r, a.standing = .inr r → r.id = id) :
    Balanced b.waitingIds [id] (endedIds (b.accept id a).2.ended)
      (b.accept id a).1.waitingIds := by
  cases hs : a.standing with
  | inl o =>
    rw [accept_of_ended b id hs]
    exact List.perm_append_comm
  | inr r =>
    rw [accept_of_waits b id hs]
    have hids : (b.waiting ++ [r]).map Reader.id = b.waitingIds ++ [id] := by
      rw [List.map_append, List.map_singleton, hstanding r hs]
      rfl
    exact List.Perm.of_eq hids

theorem balanced_serve (b : Buffer) (r : Reader) :
    Balanced b.waitingIds [r.id] (endedIds (b.serve r).2.ended) (b.serve r).1.waitingIds :=
  balanced_accept b fun _ hr' => (Reader.stuck_of_proceed hr').1

theorem balanced_read (b : Buffer) (r : Reader) :
    Balanced b.waitingIds [r.id] (endedIds (b.read r).2.ended) (b.read r).1.waitingIds :=
  balanced_accept b fun _ hr' => (Reader.stuck_of_start hr').1

theorem balanced_serveAll (b : Buffer) (readers : List Reader) :
    Balanced b.waitingIds (readers.map Reader.id) (endedIds (b.serveAll readers).2.ended)
      (b.serveAll readers).1.waitingIds := by
  induction readers generalizing b with
  | nil => exact .refl b.waitingIds
  | cons r rest ih =>
    have hboth := (balanced_serve b r).trans (ih (b.serve r).1)
    rw [← endedIds_append] at hboth
    exact hboth

/-! ## Actions -/

/-- The number of the call that an action begins, if it begins one. -/
def Action.begun : Action → List Nat
  | .read id _ => [id]
  | _ => []

/-- The number of the reader that comes anew, if one does. -/
def Waking.begun : Waking → List Nat
  | .newcomer r => [r.id]
  | _ => []

/-- A reader that is woken leaves the line before it runs, and counts as one that comes
    anew there. -/
theorem balanced_wake (b : Buffer) (w : Waking) :
    Balanced b.waitingIds w.begun (endedIds (b.wake w).2.ended) (b.wake w).1.waitingIds := by
  cases w with
  | nobody => exact .refl b.waitingIds
  | longest =>
    show Balanced b.waitingIds [] (endedIds b.wakeOne.2.ended) b.wakeOne.1.waitingIds
    rw [wakeOne]
    cases hw : b.waiting with
    | nil => exact .refl b.waitingIds
    | cons r rest =>
      have hids : b.waitingIds = r.id :: rest.map Reader.id := by
        rw [waitingIds, hw, List.map_cons]
      have hfront : (rest.map Reader.id ++ [r.id]).Perm (b.waitingIds ++ []) := by
        rw [List.append_nil, hids]
        exact List.perm_append_singleton r.id (rest.map Reader.id)
      exact (balanced_serve { b with waiting := rest } r).of_perm hfront
  | everybody =>
    have hall := balanced_serveAll { b with waiting := [] } b.waiting
    have hline : ([] ++ b.waitingIds).Perm (b.waitingIds ++ []) := List.perm_append_comm
    exact hall.of_perm hline
  | newcomer r => exact balanced_read b r

theorem begun_change (b : Buffer) (a : Action) : (b.change a).2.begun = a.begun := by
  cases a with
  | install generation timer =>
    rw [change]
    split <;> rfl
  | startRefused generation =>
    rw [change]
    split <;> rfl
  | fire generation =>
    rw [change]
    split <;> rfl
  | _ => rfl

/-- Over an action, the calls that end and those that wait are those that waited and
    the one that begins. -/
theorem balanced_act (b : Buffer) (a : Action) :
    Balanced b.waitingIds a.begun (endedIds (b.act a).2.ended) (b.act a).1.waitingIds := by
  obtain ⟨hbuffer, hended, -⟩ := act_eq b a
  have hwake := balanced_wake (b.changed a) (b.change a).2
  rw [begun_change] at hwake
  rw [hbuffer, hended]
  exact hwake

end Buffer

end StreamBuffer
