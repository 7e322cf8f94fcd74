/-
  StreamBuffer.Proofs.Session.Numbering

  Histories with their calls under ordinals.

  A session numbers the calls on all its buffers together, so that the numbers of one buffer's
  calls depend on the others. A buffer's history can be told with the calls under their
  ordinals there (`numbered`), and then it is the same whatever else goes on. The view that it
  makes is the buffer's own but for the numbers (`alike_history`), and no call shows in it that
  is not one of the history's (`known_follow`).
-/
import StreamBuffer.Proofs.Session.Likeness

namespace StreamBuffer

/-! ## Calls in a history -/

/-- The call that a deed begins, by number. -/
def Deed.call? : Deed → Option Nat
  | .read id _ => some id
  | _ => none

/-- The calls that begin in a history, by number. -/
def callNumbers (ds : List (Option Deed)) : List Nat := ds.filterMap fun d => d.bind Deed.call?

theorem callNumbers_cons (d : Option Deed) (ds : List (Option Deed)) :
    callNumbers (d :: ds) = (d.bind Deed.call?).toList ++ callNumbers ds := by
  cases h : d.bind Deed.call? <;> simp [callNumbers, h]

/-- The calls on a buffer are those in what the steps mean for it. -/
theorem callNumbers_project (b : Nat) (steps : List Step) :
    callNumbers (project b steps) = callsOn b steps := by
  rw [callNumbers, project, callsOn, List.filterMap_filterMap]
  refine List.filterMap_congr fun step _ => ?_
  cases step with
  | elapse => rfl
  | on c d =>
    by_cases hc : c = b
    · subst hc
      cases d <;> simp [Step.for?, Step.callOn?, Deed.call?]
    · cases d <;> simp [Step.for?, Step.callOn?, hc]

/-- Before a buffer is made, no call on it begins. -/
theorem callNumbers_dropWhile_isNone (ds : List (Option Deed)) :
    callNumbers (ds.dropWhile Option.isNone) = callNumbers ds := by
  induction ds with
  | nil => rfl
  | cons d rest ih =>
    cases d with
    | none => exact ih
    | some d => rfl

/-! ## Ordinals -/

/-- The history with its calls numbered one after the other, from `k` on. -/
def numbered : Nat → List (Option Deed) → List (Option Deed)
  | _, [] => []
  | k, some (.read _ call) :: rest => some (.read k call) :: numbered (k + 1) rest
  | k, d :: rest => d :: numbered k rest

/-- It does not depend on the numbers that the calls had. -/
theorem numbered_anonymous (k : Nat) (ds : List (Option Deed)) :
    numbered k (ds.map (Option.map Deed.anonymous)) = numbered k ds := by
  fun_induction numbered k ds with
  | case1 k => rfl
  | case2 k id call rest ih => exact congrArg _ ih
  | case3 k d rest hd ih =>
    cases d with
    | none => exact congrArg _ ih
    | some d =>
      cases d with
      | read id call => exact absurd rfl (hd id call)
      | _ => exact congrArg _ ih

theorem callNumbers_numbered (k : Nat) (ds : List (Option Deed)) :
    callNumbers (numbered k ds) = List.range' k (callNumbers ds).length := by
  fun_induction numbered k ds with
  | case1 k => rfl
  | case2 k id call rest ih =>
    rw [callNumbers_cons, callNumbers_cons, ih]
    show k :: _ = List.range' k ((callNumbers rest).length + 1)
    rw [List.range'_succ]
    rfl
  | case3 k d rest hd ih =>
    have hnone : d.bind Deed.call? = none := by
      cases d with
      | none => rfl
      | some d =>
        cases d with
        | read id call => exact absurd rfl (hd id call)
        | _ => rfl
    rw [callNumbers_cons, callNumbers_cons, ih, hnone]
    rfl

/-- Back to the numbers that the calls had. -/
theorem map_renumber_numbered {ρ : Nat → Nat} {k : Nat} {ds : List (Option Deed)}
    (h : ∀ j i, (callNumbers ds)[j]? = some i → ρ (k + j) = i) :
    (numbered k ds).map (Option.map (Deed.renumber ρ)) = ds := by
  fun_induction numbered k ds with
  | case1 k => rfl
  | case2 k id call rest ih =>
    have hfirst : ρ k = id := h 0 id rfl
    have hrest := ih fun j i hj => by
      have hnext := h (j + 1) i hj
      rw [← Nat.add_assoc, Nat.add_right_comm] at hnext
      exact hnext
    rw [List.map_cons, hrest, Option.map_some, Deed.renumber, hfirst]
  | case3 k d rest hd ih =>
    cases d with
    | none => exact congrArg _ (ih h)
    | some d =>
      cases d with
      | read id call => exact absurd rfl (hd id call)
      | _ => exact congrArg _ (ih h)

/-- A history has the calls on the buffer, whatever their numbers. -/
theorem length_callNumbers_history (b : Nat) (steps : List Step) :
    (callNumbers (history b steps)).length = (callsOn b steps).length := by
  have hnumbered := callNumbers_numbered 0 (history b steps)
  rw [history, numbered_anonymous, callNumbers_numbered, callNumbers_dropWhile_isNone,
    callNumbers_project] at hnumbered
  have hlength := congrArg List.length hnumbered
  rw [List.length_range', List.length_range'] at hlength
  exact hlength.symm

/-! ## What a history makes -/

namespace View

/-- The history of a buffer makes the buffer's view, but for the numbers of the calls. -/
theorem alike_history (b : Nat) (steps : List Step) {ρ : Nat → Nat}
    (hρ : ∀ j i, (callsOn b steps)[j]? = some i → ρ j = i) :
    Alike ρ 0 (({} : View).follow (numbered 0 (history b steps))).1
        (({} : View).follow (project b steps)).1
      ∧ (({} : View).follow (project b steps)).2
        = renumberEnded ρ (({} : View).follow (numbered 0 (history b steps))).2 := by
  let made := (project b steps).dropWhile Option.isNone
  have hcalls : callNumbers made = callsOn b steps := by
    rw [callNumbers_dropWhile_isNone, callNumbers_project]
  have hback : (numbered 0 (history b steps)).map (Option.map (Deed.renumber ρ)) = made := by
    rw [history, numbered_anonymous]
    refine map_renumber_numbered fun j i hj => ?_
    rw [Nat.zero_add]
    refine hρ j i ?_
    rw [← hcalls]
    exact hj
  have hempty : Alike ρ (0 + opens (numbered 0 (history b steps))) ({} : View) {} :=
    .of_buffer ⟨0, none, rfl⟩
  obtain ⟨halike, hended⟩ := hempty.follow
  rw [hback, follow_dropWhile_isNone] at halike hended
  exact ⟨halike, hended⟩

/-- The call waits in the view, or it ended in coming to it. -/
def Shows (r : Result) (i : Nat) : Prop := i ∈ Buffer.endedIds r.2 ∨ i ∈ r.1.waitingIds

/-- An operation on the buffer shows no call but those that waited, and those that it begins. -/
theorem shows_on {v : View} {f : Buffer → Buffer × Effects} {begun : List Nat}
    (hf : ∀ b, Balanced b.waitingIds begun (Buffer.endedIds (f b).2.ended) (f b).1.waitingIds)
    {i : Nat} (h : Shows (v.on f) i) : i ∈ v.waitingIds ∨ i ∈ begun := by
  cases hb : v.buffer with
  | none =>
    simp only [Shows, on, hb] at h
    rcases h with h | h
    · cases h
    · exact Or.inl h
  | some b =>
    simp only [Shows, on, hb] at h
    have hids : v.waitingIds = b.waitingIds := by rw [waitingIds, hb]; rfl
    rw [hids]
    exact List.mem_append.mp ((hf b).mem_iff.mp (List.mem_append.mpr h))

/-- The deadline is reached, and nothing else. -/
theorem shows_reachDeadline {v : View} {i : Nat} (h : Shows (v.on Buffer.reachDeadline) i) :
    i ∈ v.waitingIds := by
  have hbalanced (b : Buffer) := Buffer.balanced_wake
    { b with state := { b.state with deadlineReached := true } } .everybody
  exact (shows_on hbalanced h).resolve_right List.not_mem_nil

theorem shows_finish {v : View} {a : UInt64 × Instant} {launch : Launch} {i : Nat}
    (h : Shows (v.finish a launch) i) : i ∈ v.waitingIds := by
  have hnothing : Shows (v, []) i → i ∈ v.waitingIds := fun h => h.resolve_left List.not_mem_nil
  have hlaunch : ∀ reading, Shows (v.launch a reading) i → i ∈ v.waitingIds := by
    intro reading h
    rw [View.launch, fire] at h
    split at h
    · split at h
      · exact shows_reachDeadline (v := v.disarm) h
      · exact hnothing h
    · rw [install] at h
      split at h
      · exact hnothing h
      · exact hnothing h
  cases launch with
  | prompt => exact hlaunch 0 h
  | overtaken => exact hlaunch 1 h
  | refused =>
    rw [finish, refuse] at h
    split at h
    · exact shows_reachDeadline h
    · exact hnothing h

theorem shows_act {v : View} {d : Deed} {i : Nat} (h : Shows (v.act d) i) :
    i ∈ v.waitingIds ∨ i ∈ d.call?.toList := by
  cases d with
  | create c => rcases h with h | h <;> cases h
  | write chunk => exact shows_on (fun b => b.balanced_act (.write chunk)) h
  | close => exact shows_on (v := v.disarm) (fun b => b.balanced_act .close) h
  | read id call => exact shows_on (fun b => b.balanced_act (.read id call)) h
  | startDeadline lead =>
    -- a change that enters flight touches no reader
    have hfirst := fun h => shows_on (v := v.disarm) (i := i)
      (fun b => b.balanced_act (.startDeadline 0 (lead.map (Lead.instant 0)))) h
    refine hfirst (h.imp_right fun hwaiting => ?_)
    have hsame : ∀ (v : View) deadline, (v.enterFlight deadline).waitingIds = v.waitingIds := by
      intro v deadline
      unfold enterFlight
      split
      · split <;> rfl
      · rfl
    exact (hsame _ _) ▸ hwaiting
  | finishDeadline launch =>
    refine Or.inl ?_
    simp only [act] at h
    split at h
    · exact h.resolve_left List.not_mem_nil
    · exact shows_finish h

theorem shows_elapse {v : View} {i : Nat} (h : Shows v.elapse i) : i ∈ v.waitingIds := by
  rw [elapse] at h
  split at h
  · exact shows_reachDeadline (v := v.age.disarm) h
  · exact h.resolve_left List.not_mem_nil

/-- No call shows that did not wait at first and does not begin in the history. -/
theorem shows_follow {v : View} {ds : List (Option Deed)} {i : Nat} (h : Shows (v.follow ds) i) :
    i ∈ v.waitingIds ∨ i ∈ callNumbers ds := by
  induction ds generalizing v with
  | nil => exact Or.inl (h.resolve_left List.not_mem_nil)
  | cons d rest ih =>
    have hstep : Shows (v.step d) i → i ∈ v.waitingIds ∨ i ∈ (d.bind Deed.call?).toList := by
      cases d with
      | none => exact fun h => Or.inl (shows_elapse h)
      | some d => exact shows_act
    rw [callNumbers_cons, List.mem_append, ← or_assoc]
    rcases h with h | h
    · rw [follow, Buffer.endedIds_append, List.mem_append] at h
      rcases h with h | h
      · exact Or.inl (hstep (Or.inl h))
      · exact (ih (Or.inl h)).imp_left fun hwaiting => hstep (Or.inr hwaiting)
    · exact (ih (Or.inr h)).imp_left fun hwaiting => hstep (Or.inr hwaiting)

end View

end StreamBuffer
