/-
  StreamBuffer.Proofs.Session.Calls

  Every read call ends exactly once. The reports on a session say of each call, in the
  order in which the calls began, that it ended in its own step or that it waits; and
  they say which calls a step woke to their end, the steps inside a change of a deadline
  with the rest.

  `Accounts s calls woken t` is the account over a way from `s` to `t`: the calls are
  those that began, those that were woken and those that wait at `t` are those that
  waited at `s` or said that they wait, each as often. It holds of every operation with
  all that runs inside it (`Op.accounts_run`, by recursion on the tree of operations)
  and up to every boundary between steps (`Boundary.accounts`).
-/
import StreamBuffer.Proofs.Session.Boundary
import Mathlib.Data.List.Nodup

namespace StreamBuffer

/-! ## What reports say about calls -/

/-- The answer to a read call is the call's own. -/
def Answer.calls : Answer → List Answer
  | .ended outcome => [.ended outcome]
  | .blocked id => [.blocked id]
  | _ => []

/-- The call that an answer says to wait. -/
def Answer.blocked? : Answer → Option Nat
  | .blocked id => some id
  | _ => none

/-- What a report says of calls: the answer of its step, and the calls that the step
    woke to their end, with their outcomes. -/
structure Report.Entry where
  answer : Answer
  woken : List (Nat × Outcome)

mutual

/-- The entries of a step and of the steps inside it, which come first. -/
def Report.entries : Report → List Report.Entry
  | .noHandle => []
  | .step answer during woken _ _ _ => Report.entriesDuring during ++ [⟨answer, woken⟩]

/-- The entries of what ran during a step, if anything could. -/
def Report.entriesDuring : Option (List Report) → List Report.Entry
  | none => []
  | some reports => Report.entriesAll reports

/-- The entries of steps one after the other. -/
def Report.entriesAll : List Report → List Report.Entry
  | [] => []
  | r :: rest => r.entries ++ Report.entriesAll rest

end

/-- The answers to the read calls that began, in the order they began. -/
def callsOf (entries : List Report.Entry) : List Answer := entries.flatMap fun e => e.answer.calls

/-- The calls that were woken to their end, with their outcomes. -/
def wokenBy (entries : List Report.Entry) : List (Nat × Outcome) :=
  entries.flatMap Report.Entry.woken

theorem callsOf_append (first second : List Report.Entry) :
    callsOf (first ++ second) = callsOf first ++ callsOf second := List.flatMap_append

theorem wokenBy_append (first second : List Report.Entry) :
    wokenBy (first ++ second) = wokenBy first ++ wokenBy second := List.flatMap_append

theorem callsOf_singleton (e : Report.Entry) : callsOf [e] = e.answer.calls :=
  List.flatMap_singleton _ e

theorem wokenBy_singleton (e : Report.Entry) : wokenBy [e] = e.woken :=
  List.flatMap_singleton _ e

/-! ## The numbers of calls -/

/-- The calls that say to wait. -/
def blockedIds (calls : List Answer) : List Nat := calls.filterMap Answer.blocked?

/-- Answers to calls that are numbered from `k` on: each has an outcome, or says to wait
    under its own number. -/
def Numbered : Nat → List Answer → Prop
  | _, [] => True
  | k, a :: rest => ((∃ o, a = .ended o) ∨ a = .blocked k) ∧ Numbered (k + 1) rest

theorem blockedIds_append (first second : List Answer) :
    blockedIds (first ++ second) = blockedIds first ++ blockedIds second := List.filterMap_append

theorem Numbered.append {k : Nat} {first second : List Answer} (h₁ : Numbered k first)
    (h₂ : Numbered (k + first.length) second) : Numbered k (first ++ second) := by
  induction first generalizing k with
  | nil => exact h₂
  | cons a rest ih =>
    refine ⟨h₁.1, ih h₁.2 ?_⟩
    rw [List.length_cons, ← Nat.add_assoc, Nat.add_right_comm] at h₂
    exact h₂

/-- The calls that say to wait are some of those that began, in order. -/
theorem Numbered.sublist_range' {k : Nat} {calls : List Answer} (h : Numbered k calls) :
    (blockedIds calls).Sublist (List.range' k calls.length) := by
  induction calls generalizing k with
  | nil => exact List.Sublist.refl _
  | cons a rest ih =>
    have hrest := ih h.2
    rw [List.length_cons, List.range'_succ]
    rcases h.1 with ⟨o, rfl⟩ | rfl
    · exact hrest.cons k
    · exact hrest.cons_cons k

theorem Numbered.nodup {k : Nat} {calls : List Answer} (h : Numbered k calls) :
    (blockedIds calls).Nodup := h.sublist_range'.nodup List.nodup_range'

/-- A call that began says to wait, under its own number, or it has an outcome. -/
theorem Numbered.getElem?_cases {k : Nat} {calls : List Answer} (h : Numbered k calls) {i : Nat}
    (hi : i < calls.length) :
    ((∃ o, calls[i]? = some (.ended o)) ∧ k + i ∉ blockedIds calls)
      ∨ (calls[i]? = some (.blocked (k + i)) ∧ k + i ∈ blockedIds calls) := by
  induction calls generalizing k i with
  | nil => cases hi
  | cons a rest ih =>
    obtain ⟨hfirst, hrest⟩ := h
    cases i with
    | zero =>
      rcases hfirst with ⟨o, rfl⟩ | rfl
      · -- the calls after it have greater numbers
        refine Or.inl ⟨⟨o, rfl⟩, fun hmem => ?_⟩
        have hrange : k + 0 ∈ List.range' (k + 1) rest.length := hrest.sublist_range'.subset hmem
        rw [List.mem_range'_1] at hrange
        omega
      · exact Or.inr ⟨rfl, List.mem_cons_self⟩
    | succ i =>
      have hmem : k + (i + 1) ∈ blockedIds (a :: rest) ↔ k + 1 + i ∈ blockedIds rest := by
        rw [show k + 1 + i = k + (i + 1) by omega]
        rcases hfirst with ⟨o, rfl⟩ | rfl
        · exact Iff.rfl
        · have hne : k + (i + 1) ≠ k := by omega
          exact List.mem_cons.trans (or_iff_right hne)
      have hi' : i < rest.length := Nat.lt_of_succ_lt_succ hi
      have hcases := ih hrest hi'
      rw [← hmem, show k + 1 + i = k + (i + 1) by omega] at hcases
      exact hcases

namespace Session

/-- The calls that wait, whatever buffer they wait for. -/
def line (s : Session) : List Nat := s.buffers.flatMap Buffer.waitingIds

/-- Over the actions on its buffers the calls of a session balance. -/
theorem Acts.balanced {s t : Session} {begun : List Nat} {ended : List (Nat × Outcome)}
    (h : Acts s begun ended t) : Balanced s.line begun (Buffer.endedIds ended) t.line := by
  induction h with
  | @quiet s t hbuffers =>
    rw [line, line, hbuffers]
    exact .refl _
  | @act s t b buffer a hbuffer hbuffers =>
    -- the other buffers stay as they are, before this one and after it
    obtain ⟨hlt, hget⟩ := List.getElem?_eq_some_iff.mp hbuffer
    have hframe := (buffer.balanced_act a).frame
      ((s.buffers.take b).flatMap Buffer.waitingIds)
      ((s.buffers.drop (b + 1)).flatMap Buffer.waitingIds)
    have hold : s.buffers = s.buffers.take b ++ buffer :: s.buffers.drop (b + 1) := by
      rw [← hget, ← List.drop_eq_getElem_cons hlt, List.take_append_drop]
    have hnew : t.buffers
        = s.buffers.take b ++ (buffer.act a).1 :: s.buffers.drop (b + 1) := by
      rw [hbuffers, List.set_eq_take_append_cons_drop, if_pos hlt]
    rw [line, line, hnew, List.flatMap_append, List.flatMap_cons]
    rw [← List.flatMap_cons, ← List.flatMap_append, ← hold] at hframe
    exact hframe
  | @create s t c hbuffers =>
    have hline : t.line = s.line := by
      rw [line, line, hbuffers, List.flatMap_append]
      exact List.append_nil _
    rw [hline]
    exact .refl _
  | trans _ _ ih₁ ih₂ =>
    rw [Buffer.endedIds_append]
    exact ih₁.trans ih₂

/-! ## The number of calls -/

theorem started_onBuffer (s : Session) (b : Nat) (f : Buffer → Buffer × Effects) :
    (s.onBuffer b f).1.started = s.started := by
  obtain ⟨buffers, alarms, records, h⟩ := onBuffer_eq s b f
  rw [h]

theorem started_retire (s : Session) (b : Nat) : (s.retire b).started = s.started := by
  rw [retire]
  split
  · rfl
  · exact started_onBuffer s b _

theorem started_wakeAlarm (s : Session) (reading i : Nat) :
    (s.wakeAlarm reading i).1.started = s.started := by
  rw [wakeAlarm]
  split
  · rfl
  · dsimp only
    split
    · exact started_onBuffer _ _ _
    · rfl
    · rfl

theorem started_wakeAlarms (s : Session) (reading : Nat) (ids : List Nat) :
    (s.wakeAlarms reading ids).1.started = s.started := by
  induction ids generalizing s with
  | nil => rfl
  | cons i rest ih => exact (ih (s.wakeAlarm reading i).1).trans (started_wakeAlarm s reading i)

theorem started_startDeadline (s : Session) (b : Nat) (lead : Option Lead) :
    (s.startDeadline b lead).1.started = s.started := by
  rw [startDeadline]
  dsimp only
  have hfirst := started_onBuffer s b (·.startDeadline s.now (lead.map (Lead.instant s.now)))
  split
  · split
    · exact hfirst
    · split
      · exact hfirst
      · exact hfirst
  · exact hfirst

theorem started_launch (s : Session) (a : Arming) (reading : Nat) :
    (s.launch a reading).1.started = s.started :=
  (started_onBuffer _ _ _).trans (started_wakeAlarm _ _ _)

theorem started_finishDeadline (s : Session) (a : Arming) (launch : Launch) :
    (s.finishDeadline a launch).1.started = s.started := by
  cases launch with
  | prompt => exact started_launch s a s.now
  | overtaken => exact started_launch s a (s.now + 1)
  | refused => exact started_onBuffer s a.buffer _

/-! ## Accounts -/

/-- The account of the read calls over a way from `s` to `t`. -/
structure Accounts (s : Session) (calls : List Answer) (woken : List Nat) (t : Session) :
    Prop where
  started_eq : t.started = s.started + calls.length
  numbered : Numbered s.started calls
  balanced : Balanced s.line (blockedIds calls) woken t.line

namespace Accounts

/-- A way on which no call begins. -/
theorem of_acts {s t : Session} {ended : List (Nat × Outcome)} (h : Acts s [] ended t)
    (hstarted : t.started = s.started) : Accounts s [] (Buffer.endedIds ended) t :=
  ⟨hstarted, trivial, h.balanced⟩

theorem refl (s : Session) : Accounts s [] [] s := .of_acts (.refl s) rfl

theorem trans {s t u : Session} {calls₁ calls₂ : List Answer} {woken₁ woken₂ : List Nat}
    (h₁ : Accounts s calls₁ woken₁ t) (h₂ : Accounts t calls₂ woken₂ u) :
    Accounts s (calls₁ ++ calls₂) (woken₁ ++ woken₂) u := by
  refine ⟨?_, ?_, ?_⟩
  · rw [h₂.started_eq, h₁.started_eq, List.length_append, Nat.add_assoc]
  · -- the second way's calls are numbered from where the first one came to
    refine h₁.numbered.append ?_
    rw [← h₁.started_eq]
    exact h₂.numbered
  · rw [blockedIds_append]
    exact h₁.balanced.trans h₂.balanced

/-- The order in which calls were woken does not matter. -/
theorem of_perm {s t : Session} {calls : List Answer} {woken woken' : List Nat}
    (h : Accounts s calls woken t) (hperm : woken'.Perm woken) : Accounts s calls woken' t :=
  ⟨h.started_eq, h.numbered, h.balanced.of_ended_perm hperm⟩

end Accounts

/-- The account that the entries of reports give of a way from `s` to `t`. -/
def AccountsFor (s : Session) (entries : List Report.Entry) (t : Session) : Prop :=
  Accounts s (callsOf entries) (Buffer.endedIds (wokenBy entries)) t

theorem AccountsFor.append {s t u : Session} {first second : List Report.Entry}
    (h₁ : AccountsFor s first t) (h₂ : AccountsFor t second u) :
    AccountsFor s (first ++ second) u := by
  have hboth := h₁.trans h₂
  rw [AccountsFor, callsOf_append, wokenBy_append, Buffer.endedIds_append]
  exact hboth

/-- One entry accounts for its step, in whatever order it names the calls. -/
theorem Accounts.entry {s t : Session} {answer : Answer} {ended woken : List (Nat × Outcome)}
    (h : Accounts s answer.calls (Buffer.endedIds ended) t) (hperm : woken.Perm ended) :
    AccountsFor s [⟨answer, woken⟩] t := by
  rw [AccountsFor, callsOf_singleton, wokenBy_singleton]
  exact h.of_perm (hperm.map Prod.fst)

/-- The report on a step with nothing inside it. -/
theorem Accounts.report {s t : Session} {answer : Answer} {e : Effects}
    (h : Accounts s answer.calls (Buffer.endedIds e.ended) t) (u : Session) (b : Option Nat) :
    AccountsFor s (u.report b answer e none).entries t :=
  h.entry (List.mergeSort_perm e.ended _)

/-- A step through a handle, whether a buffer goes by it or not. -/
theorem AccountsFor.withHandle {s : Session} {h : Nat} {f : Nat → Session × Report}
    (hf : ∀ b, s.bufferOf? h = some b → AccountsFor s (f b).2.entries (f b).1) :
    AccountsFor s (s.withHandle h f).2.entries (s.withHandle h f).1 := by
  rw [Session.withHandle]
  split
  · exact Accounts.refl s
  · rename_i b hb
    exact hf b hb

/-! ## Read calls -/

theorem started_read (s : Session) (b : Nat) (call : Call) :
    (s.read b call).1.started = s.started + 1 :=
  started_onBuffer { s with started := s.started + 1 } b _

/-- A read call ends no call but itself. -/
theorem ended_read {s : Session} {b : Nat} {buffer : Buffer} (h : s.buffers[b]? = some buffer)
    (call : Call) :
    (s.read b call).2.ended = [] ∨ ∃ o, (s.read b call).2.ended = [(s.started, o)] := by
  let r : Reader := { id := s.started, call }
  have hended : (s.read b call).2.ended = (buffer.accept r.id (r.start buffer.state)).2.ended := by
    simp only [read, onBuffer, h]
    rfl
  rw [hended]
  cases hstanding : (r.start buffer.state).standing with
  | inl o =>
    rw [Buffer.accept_of_ended buffer r.id hstanding]
    exact Or.inr ⟨o, rfl⟩
  | inr r' =>
    rw [Buffer.accept_of_waits buffer r.id hstanding]
    exact Or.inl rfl

/-- A call that does not end in its own step says to wait, and does. -/
theorem accounts_blocked {s : Session} {b : Nat} {buffer : Buffer} {call : Call}
    (h : s.buffers[b]? = some buffer) (hended : (s.read b call).2.ended = []) :
    Accounts s [.blocked s.started] [] (s.read b call).1 := by
  have hbalanced := (acts_read h call).balanced
  rw [hended] at hbalanced
  exact ⟨started_read s b call, ⟨Or.inr rfl, trivial⟩, hbalanced⟩

/-- A call that ends in its own step never waits. -/
theorem accounts_ended {s : Session} {b : Nat} {buffer : Buffer} {call : Call} {o : Outcome}
    (h : s.buffers[b]? = some buffer) (hended : (s.read b call).2.ended = [(s.started, o)]) :
    Accounts s [.ended o] [] (s.read b call).1 := by
  have hbalanced := (acts_read h call).balanced
  rw [hended] at hbalanced
  refine ⟨started_read s b call, ⟨Or.inl ⟨o, rfl⟩, trivial⟩, ?_⟩
  -- it counts on both sides, as one that began and as one that ended
  exact hbalanced.cancel

theorem accounts_read {s : Session} (hs : s.HandlesValid) {h b : Nat}
    (hb : s.bufferOf? h = some b) (call : Call) :
    Accounts s
      (match (s.read b call).2.ended with
        | [] => Answer.blocked s.started
        | (_, outcome) :: _ => .ended outcome).calls [] (s.read b call).1 := by
  have hlt : b < s.buffers.length := hs b (mem_handles_of_bufferOf? hb)
  have hbuffer : s.buffers[b]? = some s.buffers[b] := List.getElem?_eq_getElem hlt
  rcases ended_read hbuffer call with hended | ⟨o, hended⟩
  · rw [hended]
    exact accounts_blocked hbuffer hended
  · rw [hended]
    exact accounts_ended hbuffer hended

/-! ## Changes of a deadline -/

/-- To retire a buffer ends no call. -/
theorem Accounts.retire {s t : Session} {calls : List Answer} {woken : List Nat}
    (h : Accounts s calls woken t) (b : Nat) : Accounts s calls woken (t.retire b) := by
  have hboth := h.trans (.of_acts (t.acts_retire b) (t.started_retire b))
  rw [List.append_nil] at hboth
  exact hboth.of_perm (List.Perm.of_eq (List.append_nil woken).symm)

/-- The report on a change with steps inside it: the calls that its halves woke are in
    one entry, behind those of the steps inside. -/
theorem accounts_deadline {s first inside t : Session} {e₁ e₂ : Effects} {reports : List Report}
    {answer : Answer} (hanswer : answer.calls = [])
    (h₁ : Accounts s [] (Buffer.endedIds e₁.ended) first)
    (h₂ : AccountsFor first (Report.entriesAll reports) inside)
    (h₃ : Accounts inside [] (Buffer.endedIds e₂.ended) t) (u : Session) (b : Option Nat) :
    AccountsFor s (u.report b answer (e₁ ++ e₂) (some reports)).entries t := by
  let woken := (e₁ ++ e₂).ended.mergeSort fun x y => x.1 ≤ y.1
  show AccountsFor s (Report.entriesAll reports ++ [⟨answer, woken⟩]) t
  have hall := (h₁.trans h₂).trans h₃
  rw [List.nil_append] at hall
  rw [AccountsFor, callsOf_append, wokenBy_append, callsOf_singleton, wokenBy_singleton, hanswer]
  refine hall.of_perm ?_
  have hhalves : (Buffer.endedIds woken).Perm
      (Buffer.endedIds e₁.ended ++ Buffer.endedIds e₂.ended) := by
    rw [← Buffer.endedIds_append]
    exact (List.mergeSort_perm (e₁ ++ e₂).ended fun x y => x.1 ≤ y.1).map Prod.fst
  -- what the halves woke changes places with what the steps between them woke
  rw [Buffer.endedIds_append]
  refine (hhalves.append_left _).trans ?_
  rw [← List.append_assoc]
  exact List.perm_append_comm.append_right _

end Session

mutual

-- on the tree of operations: those inside a change of a deadline are a list of their own

/-- An operation, with all that runs inside it. -/
theorem Op.accounts_run (op : Op) {s : Session} (hs : s.HandlesValid) :
    s.AccountsFor (op.run s).2.entries (op.run s).1 := by
  match op with
  | .create handle config =>
    exact (Session.Accounts.of_acts (s.acts_create config) rfl).report _ _
  | .share handle =>
    refine Session.AccountsFor.withHandle fun b hb => ?_
    have hshare := Session.acts_share (Session.mem_handles_of_bufferOf? hb)
    exact (Session.Accounts.of_acts hshare rfl).report _ _
  | .drop handle =>
    refine Session.AccountsFor.withHandle fun b _ => ?_
    have hdrop := Session.Accounts.of_acts (s.acts_drop handle b) (Session.started_retire _ b)
    exact hdrop.entry (List.Perm.refl [])
  | .write handle chunk =>
    refine Session.AccountsFor.withHandle fun b _ => ?_
    exact (Session.Accounts.of_acts (s.acts_write b chunk) (s.started_onBuffer b _)).report _ _
  | .close handle =>
    refine Session.AccountsFor.withHandle fun b _ => ?_
    exact (Session.Accounts.of_acts (s.acts_close b) (s.started_onBuffer b _)).report _ _
  | .inspect handle =>
    refine Session.AccountsFor.withHandle fun b _ => ?_
    have hanswer : (((s.summary? b).map Answer.summary).getD .done).calls = [] := by
      cases s.summary? b <;> rfl
    refine Session.Accounts.report ?_ _ _
    rw [hanswer]
    exact .refl s
  | .read handle call =>
    refine Session.AccountsFor.withHandle fun b hb => ?_
    exact (Session.accounts_read hs hb call).report _ _
  | .deadline handle lead during launch =>
    unfold Op.run
    refine Session.AccountsFor.withHandle fun b _ => ?_
    have hfirst := Session.Accounts.of_acts (s.acts_startDeadline b lead)
      (s.started_startDeadline b lead)
    dsimp only
    split
    · exact hfirst.report _ _
    · exact hfirst.report _ _
    · -- what runs inside starts where the first half ended, and the second half follows
      rename_i a _
      have hvalid := (s.acts_startDeadline b lead).leads.handlesValid hs
      have hinside := Op.accounts_runAll during hvalid
      have hsecond := Session.Accounts.of_acts (Session.acts_finishDeadline
        (Op.runAll during (s.startDeadline b lead).1).1 a launch)
        (Session.started_finishDeadline _ a launch)
      exact Session.accounts_deadline rfl hfirst hinside (hsecond.retire b) _ _
  | .elapse handle =>
    exact (Session.Accounts.of_acts s.acts_elapse (Session.started_wakeAlarms _ _ _)).report _ _

/-- Operations one after the other. -/
theorem Op.accounts_runAll (ops : List Op) {s : Session} (hs : s.HandlesValid) :
    s.AccountsFor (Report.entriesAll (Op.runAll ops s).2) (Op.runAll ops s).1 := by
  match ops with
  | [] => exact Session.Accounts.refl s
  | op :: rest =>
    have hvalid := (Op.leads_run op s).handlesValid hs
    exact (Op.accounts_run op hs).append (Op.accounts_runAll rest hvalid)

end

namespace Session

/-! ## Boundaries -/

/-- The account up to a boundary. What the first halves of changes that are still open
    woke is to be reported with these. -/
theorem Boundary.accounts {s t : Session} {ops : List Op} {seen : List Report}
    {underway : List (Nat × Outcome)} (h : Boundary s ops seen underway t)
    (hs : s.HandlesValid) :
    Accounts s (callsOf (Report.entriesAll seen))
      (Buffer.endedIds (wokenBy (Report.entriesAll seen) ++ underway)) t := by
  induction h with
  | here s ops => exact .refl s
  | @next s t op ops seen underway _ ih =>
    have hrest := ih ((Op.leads_run op s).handlesValid hs)
    have hboth := Accounts.trans (Op.accounts_run op hs) hrest
    rw [← Buffer.endedIds_append, ← List.append_assoc, ← wokenBy_append, ← callsOf_append] at hboth
    exact hboth
  | @inside s t first e a handle b lead during ops launch seen underway _ hfirst _ ih =>
    have hacts := s.acts_startDeadline b lead
    have hstarted := s.started_startDeadline b lead
    rw [hfirst] at hacts hstarted
    have hboth := (Accounts.of_acts hacts hstarted).trans (ih (hacts.leads.handlesValid hs))
    rw [List.nil_append, ← Buffer.endedIds_append] at hboth
    refine hboth.of_perm ?_
    have hperm : (wokenBy (Report.entriesAll seen) ++ (e.ended ++ underway)).Perm
        (e.ended ++ (wokenBy (Report.entriesAll seen) ++ underway)) := by
      rw [← List.append_assoc, ← List.append_assoc]
      exact List.perm_append_comm.append_right underway
    exact hperm.map Prod.fst

/-! ## Waiting at one buffer -/

theorem mem_waitingIds_iff {s : Session} {b i : Nat} :
    i ∈ s.waitingIds b ↔ ∃ buffer, s.buffers[b]? = some buffer ∧ i ∈ buffer.waitingIds := by
  rw [waitingIds]
  cases s.buffers[b]? with
  | none => simp
  | some buffer => simp

theorem mem_line_iff (s : Session) (i : Nat) : i ∈ s.line ↔ ∃ b, i ∈ s.waitingIds b := by
  rw [line, List.mem_flatMap]
  constructor
  · rintro ⟨buffer, hmem, hi⟩
    obtain ⟨b, hb⟩ := List.getElem?_of_mem hmem
    exact ⟨b, mem_waitingIds_iff.mpr ⟨buffer, hb, hi⟩⟩
  · rintro ⟨b, hi⟩
    obtain ⟨buffer, hb, hi⟩ := mem_waitingIds_iff.mp hi
    exact ⟨buffer, List.mem_of_getElem? hb, hi⟩

/-- Where no call waits twice, none waits for two buffers. -/
theorem not_lt_of_mem_waitingIds {s : Session} (h : s.line.Nodup) {i b b' : Nat}
    (hb : i ∈ s.waitingIds b) (hb' : i ∈ s.waitingIds b') : ¬ b < b' := by
  obtain ⟨-, hpairwise⟩ := List.nodup_flatMap.mp h
  obtain ⟨buffer, hbuffer, hi⟩ := mem_waitingIds_iff.mp hb
  obtain ⟨buffer', hbuffer', hi'⟩ := mem_waitingIds_iff.mp hb'
  obtain ⟨hlt, rfl⟩ := List.getElem?_eq_some_iff.mp hbuffer
  obtain ⟨hlt', rfl⟩ := List.getElem?_eq_some_iff.mp hbuffer'
  intro hless
  exact List.pairwise_iff_getElem.mp hpairwise b b' hlt hlt' hless hi hi'

/-- Each that waits does so for one buffer, once. -/
theorem exists_waitingIds_of_nodup {s : Session} (h : s.line.Nodup) {i : Nat}
    (hi : i ∈ s.line) :
    ∃ b, (s.waitingIds b).count i = 1 ∧ ∀ b', i ∈ s.waitingIds b' → b' = b := by
  obtain ⟨b, hb⟩ := (mem_line_iff s i).mp hi
  obtain ⟨buffer, hbuffer, hmem⟩ := mem_waitingIds_iff.mp hb
  have hnodup : buffer.waitingIds.Nodup :=
    (List.nodup_flatMap.mp h).1 buffer (List.mem_of_getElem? hbuffer)
  refine ⟨b, ?_, fun b' hb' => ?_⟩
  · rw [waitingIds, hbuffer]
    exact List.count_eq_one_of_mem hnodup hmem
  · have hle := not_lt_of_mem_waitingIds h hb hb'
    have hge := not_lt_of_mem_waitingIds h hb' hb
    omega

/-! ## Every call ends once -/

theorem mem_endedIds_iff {ended : List (Nat × Outcome)} {i : Nat} :
    i ∈ Buffer.endedIds ended ↔ ∃ o, (i, o) ∈ ended := by
  simp [Buffer.endedIds]

/-- At every boundary between steps, also inside changes of a deadline, each call begun
    so far stands in one place. It ended in its own step; or it was woken to its end, by
    one step, once; or it waits for one buffer, once. Calls woken by the first half of a
    change that is still open are to be on its report. No call is woken, or waits, that
    has not begun, so that what woke a call came after its own step. -/
theorem calls_end_once {c : Config} {ops : List Op} {seen : List Report}
    {underway : List (Nat × Outcome)} {t : Session}
    (h : Boundary (({} : Session).create c).1 ops seen underway t) :
    let calls := callsOf (Report.entriesAll seen)
    let woken := wokenBy (Report.entriesAll seen) ++ underway
    calls.length = t.started
      ∧ (∀ i < t.started,
          ((∃ o, calls[i]? = some (.ended o)) ∧ (∀ o, (i, o) ∉ woken)
              ∧ ∀ b, i ∉ t.waitingIds b)
            ∨ (calls[i]? = some (.blocked i) ∧ (∃ o, (i, o) ∈ woken)
              ∧ (Buffer.endedIds woken).count i = 1 ∧ ∀ b, i ∉ t.waitingIds b)
            ∨ (calls[i]? = some (.blocked i) ∧ (∀ o, (i, o) ∉ woken)
              ∧ ∃ b, (t.waitingIds b).count i = 1 ∧ ∀ b', i ∈ t.waitingIds b' → b' = b))
      ∧ ∀ i, ((∃ o, (i, o) ∈ woken) ∨ ∃ b, i ∈ t.waitingIds b) → i < t.started := by
  intro calls woken
  have hvalid : (({} : Session).create c).1.HandlesValid := by
    intro b hb
    cases List.mem_singleton.mp hb
    exact Nat.zero_lt_one
  obtain ⟨hstarted, hnumbered, hbalanced⟩ := h.accounts hvalid
  have hlength : calls.length = t.started := by
    rw [hstarted]
    exact (Nat.zero_add _).symm
  -- nobody waits at first: the calls woken and those that wait are those that said to
  have hperm : (Buffer.endedIds woken ++ t.line).Perm (blockedIds calls) := hbalanced
  have hnodup : (Buffer.endedIds woken ++ t.line).Nodup := hperm.nodup_iff.mpr hnumbered.nodup
  obtain ⟨hwoken, hline, hdisjoint⟩ := List.nodup_append.mp hnodup
  have hmem : ∀ i, i ∈ blockedIds calls ↔ i ∈ Buffer.endedIds woken ∨ i ∈ t.line := by
    intro i
    rw [← hperm.mem_iff, List.mem_append]
  have hnotWoken : ∀ i, i ∉ Buffer.endedIds woken → ∀ o, (i, o) ∉ woken :=
    fun i hi o ho => hi (mem_endedIds_iff.mpr ⟨o, ho⟩)
  have hnotWaiting : ∀ i, i ∉ t.line → ∀ b, i ∉ t.waitingIds b :=
    fun i hi b hb => hi ((mem_line_iff t i).mpr ⟨b, hb⟩)
  refine ⟨hlength, fun i hi => ?_, fun i hi => ?_⟩
  · have hcases := hnumbered.getElem?_cases (hlength.symm ▸ hi)
    rw [show (({} : Session).create c).1.started + i = i from Nat.zero_add i, hmem] at hcases
    -- no call is both woken and in a line, or in either twice, since no number is
    rcases hcases with ⟨hended, hnot⟩ | ⟨hblocked, hin | hin⟩
    · obtain ⟨hnotIn, hnotLine⟩ := not_or.mp hnot
      exact Or.inl ⟨hended, hnotWoken i hnotIn, hnotWaiting i hnotLine⟩
    · refine Or.inr (Or.inl ⟨hblocked, mem_endedIds_iff.mp hin, ?_, ?_⟩)
      · exact List.count_eq_one_of_mem hwoken hin
      · exact hnotWaiting i fun hline => hdisjoint i hin i hline rfl
    · refine Or.inr (Or.inr ⟨hblocked, ?_, exists_waitingIds_of_nodup hline hin⟩)
      exact hnotWoken i fun hwoken => hdisjoint i hwoken i hin rfl
  · have hin : i ∈ blockedIds calls := by
      rw [hmem, mem_endedIds_iff, mem_line_iff]
      exact hi
    have hrange := hnumbered.sublist_range'.subset hin
    rw [List.mem_range'_1] at hrange
    have hzero : (({} : Session).create c).1.started = 0 := rfl
    have hlt : i < (callsOf (Report.entriesAll seen)).length := by omega
    rw [← hlength]
    exact hlt

/-- Three reads wait, and two bytes wake one of them. While a deadline is set, after its
    first half has woken the second read with the other byte, an empty read ends at once
    and the one handle is dropped. The third read still waits, for the buffer without a
    handle. -/
theorem calls_end_once_dropped :
    let before : List Op :=
      [.read 0 (.read 1), .read 0 (.read 1), .read 0 (.fill 2), .write 0 [7, 8]]
    let during : List Op := [.read 0 (.read 0), .drop 0]
    ∃ seen underway t,
      Boundary (({} : Session).create {}).1
          (before ++ [.deadline 0 (some .soon) during .prompt]) seen underway t
        ∧ t.handles = [none] ∧ t.started = 4
        ∧ callsOf (Report.entriesAll seen)
            = [.blocked 0, .blocked 1, .blocked 2, .ended (.bytes [])]
        ∧ wokenBy (Report.entriesAll seen) = [(0, .bytes [7])] ∧ underway = [(1, .bytes [8])]
        ∧ ∃ b, (t.waitingIds b).count 2 = 1 ∧ ∀ b', 2 ∈ t.waitingIds b' → b' = b := by
  intro before during
  let s : Session := (Op.runAll before (({} : Session).create {}).1).1
  let first := s.startDeadline 0 (some .soon)
  have hopening : first.2.2 = .inFlight { buffer := 0, generation := 1, deadline := .tick 1 } := by
    decide +kernel
  have hfirst : s.startDeadline 0 (some .soon)
      = (first.1, first.2.1, .inFlight { buffer := 0, generation := 1, deadline := .tick 1 }) := by
    rw [← hopening]
  have hhandle : s.bufferOf? 0 = some 0 := by decide +kernel
  have hinside : Boundary s [.deadline 0 (some .soon) during .prompt]
      (Op.runAll during first.1).2 (first.2.1.ended ++ []) (Op.runAll during first.1).1 :=
    .inside hhandle hfirst (boundary_runAll first.1 during)
  have hboundary := Boundary.after hinside
  let seen := (Op.runAll before (({} : Session).create {}).1).2 ++ (Op.runAll during first.1).2
  have hseen : callsOf (Report.entriesAll seen)
      = [.blocked 0, .blocked 1, .blocked 2, .ended (.bytes [])] := by
    decide +kernel
  have hwoken : wokenBy (Report.entriesAll seen) = [(0, .bytes [7])] := by decide +kernel
  have hunderway : first.2.1.ended ++ [] = [(1, .bytes [8])] := by decide +kernel
  refine ⟨seen, _, _, hboundary, by decide +kernel, by decide +kernel, hseen, hwoken, hunderway, ?_⟩
  obtain ⟨-, hcalls, -⟩ := calls_end_once hboundary
  rw [hseen, hwoken, hunderway] at hcalls
  rcases hcalls 2 (by decide +kernel) with ⟨⟨o, ho⟩, -⟩ | ⟨-, ⟨o, ho⟩, -⟩ | ⟨-, -, hwaits⟩
  · cases ho
  · simp at ho
  · exact hwaits

end Session

end StreamBuffer
