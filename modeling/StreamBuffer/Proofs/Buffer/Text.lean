/-
  StreamBuffer.Proofs.Buffer.Text

  Collecting text instead of bytes changes what the call ends with, and nothing else.

  `asText` makes every call that collects bytes one that collects text. No reader looks at the
  difference before it ends, so whoever runs takes the same bytes in the same pieces, and every
  action does to the buffer, its events and its timers what it did (`act_asText`); over a run
  only the outcomes differ (`runAll_asText`). They differ as `Outcome.ofText` says, which is
  about the bytes as a whole (`ofText_of_utf8`, `ofText_of_not_utf8`).

  One lemma for each function, from a look at the queue up to a run.
-/
import StreamBuffer.Proofs.Buffer.Calls

namespace StreamBuffer

/-! ## Bytes that are a text -/

namespace Outcome

/-- Bytes that are the encoding of a text are given as that text. -/
theorem ofText_of_utf8 {got : Bytes} {t : String} (h : t.toUTF8 = got.toByteArray)
    (error : Option StreamError) : ofText got error = .text got t error := by
  have hvalid : got.toByteArray.IsValidUTF8 := by
    rw [← h]
    exact t.isValidUTF8
  have htext : String.fromUTF8? got.toByteArray = some t := by
    rw [String.fromUTF8?, dif_pos hvalid]
    exact congrArg some (String.toByteArray_inj.mp h.symm)
  simp only [ofText, htext]

/-- Bytes that are the encoding of none give none, and the call fails if nothing else made it
    fail. -/
theorem ofText_of_not_utf8 {got : Bytes} (h : ∀ t : String, t.toUTF8 ≠ got.toByteArray)
    (error : Option StreamError) :
    ofText got error = .text got "" (some (error.getD .notText)) := by
  have hinvalid : ¬got.toByteArray.IsValidUTF8 :=
    fun hvalid => h (.ofByteArray got.toByteArray hvalid) rfl
  have htext : String.fromUTF8? got.toByteArray = none := by
    rw [String.fromUTF8?, dif_neg hinvalid]
  cases error <;> simp only [ofText, htext, Option.getD]

/-- The outcome of the call that collects text, where that of the call that collects bytes is
    this. -/
def asText : Outcome → Outcome
  | .collected got error => .ofText got error
  | o => o

end Outcome

/-! ## Readers -/

/-- The call with bytes to collect as text. -/
def Call.asText : Call → Call
  | .toEnd pieces => .toText pieces
  | c => c

/-- The reader with its call. -/
def Reader.asText (r : Reader) : Reader := { r with call := r.call.asText }

/-- The same progress of that reader. -/
def Progress.asText : Progress → Progress
  | .ended outcome => .ended outcome.asText
  | .onward r => .onward r.asText
  | .waits => .waits

/-- How far that reader came. -/
def Advance.asText (a : Advance) : Advance :=
  { a with standing := a.standing.map Outcome.asText Reader.asText }

namespace Reader

@[simp] theorem want_asText (r : Reader) : r.asText.want = r.want := by
  obtain ⟨id, call, got⟩ := r
  cases call <;> rfl

theorem look_asText (r : Reader) (s : BufferState) (entering : Bool) :
    r.asText.look s entering = r.look s entering := by
  rw [look, look, want_asText]

theorem eventsOf_asText (r : Reader) (a : Attempt) : r.asText.eventsOf a = r.eventsOf a := by
  obtain ⟨id, call, got⟩ := r
  cases call <;> cases a <;> rfl

theorem finish_asText {r : Reader} {pieces : PieceSizes} (h : r.call = .toText pieces)
    (error : Option StreamError) : (r.finish error).asText = r.finish error := by
  rw [finish, h]
  show (Outcome.ofText r.got error).asText = .ofText r.got error
  unfold Outcome.ofText
  split <;> rfl

theorem settle_asText (r : Reader) (a : Attempt) : r.asText.settle a = (r.settle a).asText := by
  obtain ⟨id, call, got⟩ := r
  cases a with
  | nothing => rfl
  | taken bytes =>
    cases call with
    | fill n =>
      show (if n ≤ got.length + bytes.length then _ else _) = (if n ≤ got.length + bytes.length
        then Progress.ended (Outcome.bytes (got ++ bytes))
        else .onward (Reader.collect { id, call := .fill n, got } bytes)).asText
      rw [apply_ite Progress.asText]
      rfl
    | _ => rfl
  | failed e =>
    cases call with
    | toText pieces =>
      cases e
      · exact congrArg Progress.ended (finish_asText rfl _).symm
      · exact congrArg Progress.ended (finish_asText rfl _).symm
    | _ => cases e <;> rfl

/-- A whole run, by induction on its looks at the queue. -/
theorem proceed_asText (r : Reader) (s : BufferState) (entering : Bool) :
    r.asText.proceed s entering = (r.proceed s entering).asText := by
  fun_induction proceed r s entering with
  | case1 r s entering a outcome h =>
    have hsettle : r.asText.settle (r.asText.look s entering).1 = .ended outcome.asText := by
      rw [look_asText, settle_asText, h]
      rfl
    rw [proceed_of_ended hsettle, look_asText, eventsOf_asText]
    rfl
  | case2 r s entering a h =>
    have hsettle : r.asText.settle (r.asText.look s entering).1 = .waits := by
      rw [look_asText, settle_asText, h]
      rfl
    rw [proceed_of_waits hsettle, look_asText, eventsOf_asText]
    rfl
  | case3 r s entering a r' h rest ih =>
    have hsettle : r.asText.settle (r.asText.look s entering).1 = .onward r'.asText := by
      rw [look_asText, settle_asText, h]
      rfl
    rw [proceed_of_onward hsettle, look_asText, eventsOf_asText]
    dsimp only
    rw [ih]
    rfl

theorem start_asText (r : Reader) (s : BufferState) : r.asText.start s = (r.start s).asText := by
  obtain ⟨id, call, got⟩ := r
  have hproceed := proceed_asText { id, call, got } s true
  cases call with
  | fill n =>
    cases n with
    | zero => rfl
    | succ n => exact hproceed
  | _ => exact hproceed

end Reader

/-! ## Buffers -/

/-- The effects with the outcomes of calls that collect text. -/
def Effects.asText (e : Effects) : Effects :=
  { e with ended := e.ended.map (Prod.map id Outcome.asText) }

@[simp] theorem Effects.asText_append (e₁ e₂ : Effects) :
    (e₁ ++ e₂).asText = e₁.asText ++ e₂.asText := by
  show Effects.asText (Effects.append e₁ e₂) = Effects.append e₁.asText e₂.asText
  simp [Effects.append, asText]

namespace Buffer

/-- The buffer with its readers. -/
def asText (b : Buffer) : Buffer := { b with waiting := b.waiting.map Reader.asText }

/-- The action, with the call that it begins. -/
def Action.asText : Action → Action
  | .read id call => .read id call.asText
  | a => a

theorem accept_asText (b : Buffer) (i : Nat) (a : Advance) :
    b.asText.accept i a.asText = Prod.map asText Effects.asText (b.accept i a) := by
  obtain ⟨standing, state, events, copied⟩ := a
  cases standing <;> simp [accept, Advance.asText, asText, Effects.asText]

theorem serve_asText (b : Buffer) (r : Reader) :
    b.asText.serve r.asText = Prod.map asText Effects.asText (b.serve r) := by
  rw [serve, serve, ← accept_asText]
  exact congrArg _ (Reader.proceed_asText r b.state false)

theorem serveAll_asText (b : Buffer) (readers : List Reader) :
    b.asText.serveAll (readers.map Reader.asText)
      = Prod.map asText Effects.asText (b.serveAll readers) := by
  induction readers generalizing b with
  | nil => rfl
  | cons r rest ih =>
    simp only [List.map_cons, serveAll, serve_asText, Prod.map_fst, ih]
    simp

theorem wakeAll_asText (b : Buffer) :
    b.asText.wakeAll = Prod.map asText Effects.asText b.wakeAll :=
  serveAll_asText { b with waiting := [] } b.waiting

theorem wakeOne_asText (b : Buffer) :
    b.asText.wakeOne = Prod.map asText Effects.asText b.wakeOne := by
  obtain ⟨threadName, state, waiting⟩ := b
  cases waiting with
  | nil => rfl
  | cons r rest => exact serve_asText { threadName, state, waiting := rest } r

/-! ## Actions -/

/-- The readers that run, with their calls. -/
def Waking.asText : Waking → Waking
  | .newcomer r => .newcomer r.asText
  | w => w

theorem wake_asText (b : Buffer) (w : Waking) :
    b.asText.wake w.asText = Prod.map asText Effects.asText (b.wake w) := by
  cases w with
  | nobody => rfl
  | longest => exact wakeOne_asText b
  | everybody => exact wakeAll_asText b
  | newcomer r =>
    show b.asText.accept r.id (r.asText.start b.state) = _
    rw [Reader.start_asText]
    exact accept_asText b r.id (r.start b.state)

/-- Only an action that begins a call brings one. -/
theorem Action.asText_of_begun {a : Action} (h : a.begun = []) : a.asText = a := by
  cases a with
  | read id call => cases h
  | _ => rfl

theorem Waking.asText_of_begun {w : Waking} (h : w.begun = []) : w.asText = w := by
  cases w with
  | newcomer r => cases h
  | _ => rfl

/-- The change of an action looks at no call. -/
theorem change_asText (b : Buffer) (a : Action) :
    b.asText.change a.asText = ((b.change a).1, (b.change a).2.asText) := by
  have hsame : a.begun = [] →
      b.asText.change a.asText = ((b.change a).1, (b.change a).2.asText) := by
    intro hbegun
    rw [Action.asText_of_begun hbegun, Waking.asText_of_begun (by rw [begun_change, hbegun])]
    cases a <;> rfl
  cases a with
  | read id call => rfl
  | _ => exact hsame rfl

theorem notice_asText (b : Buffer) (a : Action) : b.asText.notice a.asText = b.notice a := by
  cases a with
  | startDeadline now deadline => cases deadline <;> rfl
  | _ => rfl

theorem asText_notice (b : Buffer) (a : Action) : (b.notice a).asText = b.notice a := rfl

/-- Every action does the same, but for the outcomes. -/
theorem act_asText (b : Buffer) (a : Action) :
    b.asText.act a.asText = Prod.map asText Effects.asText (b.act a) := by
  have hchanged : b.asText.changed a.asText = (b.changed a).asText := by
    rw [changed, change_asText]
    rfl
  rw [act_eq_wake, act_eq_wake, hchanged, change_asText, notice_asText, wake_asText]
  simp only [Prod.map, Effects.asText_append, asText_notice]

/-- So does a run, by induction on its actions. -/
theorem runAll_asText (b : Buffer) (actions : List Action) :
    b.asText.runAll (actions.map Action.asText)
      = Prod.map asText Effects.asText (b.runAll actions) := by
  induction actions generalizing b with
  | nil => rfl
  | cons a rest ih =>
    rw [List.map_cons, runAll_cons, runAll_cons, act_asText]
    simp only [Prod.map, ih, Effects.asText_append]

theorem map_asText_of_begun {actions : List Action} (h : ∀ a ∈ actions, a.begun = []) :
    actions.map Action.asText = actions := by
  have hsame : ∀ a ∈ actions, a.asText = id a := fun a ha => Action.asText_of_begun (h a ha)
  rw [List.map_congr_left hsame, List.map_id]

/-- On a buffer where nobody waits, and with no other call to begin, it is the one call that
    differs. -/
theorem runAll_toText {b : Buffer} (hline : b.waiting = []) (id : Nat) (pieces : PieceSizes)
    {during : List Action} (hbegun : ∀ a ∈ during, a.begun = []) :
    b.runAll (.read id (.toText pieces) :: during)
      = Prod.map asText Effects.asText (b.runAll (.read id (.toEnd pieces) :: during)) := by
  have hb : b.asText = b := by
    rw [asText, hline, List.map_nil, ← hline]
  rw [← runAll_asText, hb, List.map_cons, map_asText_of_begun hbegun]
  rfl

end Buffer

end StreamBuffer
