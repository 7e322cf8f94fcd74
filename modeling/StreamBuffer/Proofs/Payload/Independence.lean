/-
  StreamBuffer.Proofs.Payload.Independence

  What a session reports hangs on the lengths of the chunks written and not on their
  bytes. Two lists of operations that differ in the bytes of chunks alone are equal when
  these are blanked out (`Op.blankAll`), and then their reports are equal but for the bytes
  handed out, and so are every buffer's summary and record of events, down to the looks that
  no report shows, at every boundary between steps (`payload_independence`).

  Every transition of a session commutes with blanking, since those of its buffers do;
  a tree of operations does by recursion on it (`Op.run_blank`).
-/
import StreamBuffer.Proofs.Payload.Blank
import StreamBuffer.Proofs.Session.Recording

namespace StreamBuffer

namespace Session

/-! ## The transitions of a session -/

/-- The session with the payload of its buffers blanked out. -/
def blank (s : Session) : Session := { s with buffers := s.buffers.map Buffer.blank }

theorem handles_blank (s : Session) : s.blank.handles = s.handles := rfl

theorem records_blank (s : Session) : s.blank.records = s.records := rfl

theorem bufferOf?_blank (s : Session) (h : Nat) : s.blank.bufferOf? h = s.bufferOf? h := rfl

theorem getElem?_blank (s : Session) (b : Nat) :
    s.blank.buffers[b]? = s.buffers[b]?.map Buffer.blank := List.getElem?_map

@[simp] theorem waitingIds_blank (s : Session) (b : Nat) :
    s.blank.waitingIds b = s.waitingIds b := by
  rw [waitingIds, waitingIds, getElem?_blank]
  cases s.buffers[b]? <;> simp

@[simp] theorem summary?_blank (s : Session) (b : Nat) : s.blank.summary? b = s.summary? b := by
  rw [summary?, summary?, getElem?_blank]
  cases s.buffers[b]? <;> simp [Buffer.blank]

@[simp] theorem isAlive_blank (s : Session) (b : Nat) : s.blank.isAlive b = s.isAlive b := by
  rw [isAlive, isAlive, waitingIds_blank]
  rfl

theorem stopAlarms_blank (s : Session) (ids : List Nat) :
    s.blank.stopAlarms ids = (s.stopAlarms ids).blank := by
  induction ids generalizing s with
  | nil => rfl
  | cons i rest ih => exact ih (s.stopAlarm i)

theorem put_blank (s : Session) (b : Nat) (out : Buffer × Effects) :
    s.blank.put b (Prod.map Buffer.blank Effects.blank out) = (s.put b out).blank := by
  simp [put, blank, List.map_set, Effects.blank]

/-- An operation on a buffer that commutes with blanking does so in a session. -/
theorem onBuffer_blank (s : Session) (b : Nat) {f g : Buffer → Buffer × Effects}
    (h : Buffer.Commutes f g) :
    s.blank.onBuffer b g = Prod.map blank Effects.blank (s.onBuffer b f) := by
  rw [onBuffer, onBuffer, getElem?_blank]
  cases s.buffers[b]? with
  | none => rfl
  | some buffer =>
    simp only [Option.map_some, h buffer, put_blank]
    exact congrArg (·, (f buffer).2.blank) (stopAlarms_blank (s.put b (f buffer)) _)

theorem retire_blank (s : Session) (b : Nat) : s.blank.retire b = (s.retire b).blank := by
  rw [retire, retire, isAlive_blank]
  split
  · rfl
  · have habandon : Buffer.Commutes Buffer.abandon Buffer.abandon := fun _ => rfl
    exact congrArg Prod.fst (onBuffer_blank s b habandon)

theorem wakeAlarm_blank (s : Session) (reading i : Nat) :
    s.blank.wakeAlarm reading i = Prod.map blank Effects.blank (s.wakeAlarm reading i) := by
  rw [wakeAlarm, wakeAlarm]
  have halarms : s.blank.alarms[i]? = s.alarms[i]? := rfl
  rw [halarms]
  cases s.alarms[i]? with
  | none => rfl
  | some a =>
    have hfire := onBuffer_blank
      { s with alarms := s.alarms.set i { a with timer := a.timer.wake reading } } a.buffer
      (Buffer.fire_blank a.generation)
    have hstate : ({ s.blank with
        alarms := s.blank.alarms.set i { a with timer := a.timer.wake reading } } : Session)
        = ({ s with alarms := s.alarms.set i { a with timer := a.timer.wake reading } } :
            Session).blank := rfl
    dsimp only
    rw [hstate]
    split
    · rw [hfire]
      rfl
    · rfl
    · rfl

theorem wakeAlarms_blank (s : Session) (reading : Nat) (ids : List Nat) :
    s.blank.wakeAlarms reading ids = Prod.map blank Effects.blank (s.wakeAlarms reading ids) := by
  induction ids generalizing s with
  | nil => rfl
  | cons i rest ih =>
    simp only [wakeAlarms, wakeAlarm_blank, Prod.map_fst, ih]
    simp

theorem elapse_blank (s : Session) :
    s.blank.elapse = Prod.map blank Effects.blank s.elapse :=
  wakeAlarms_blank { s with now := s.now + 1 } (s.now + 1) (List.range s.alarms.length)

theorem create_blank (s : Session) (c : Config) :
    s.blank.create c = Prod.map blank id (s.create c) := by
  simp [create, blank, Buffer.blank, Buffer.ofConfig, BufferState.blank, SegmentQueue.blank,
    SegmentQueue.ofCapacity]

theorem drop_blank (s : Session) (h b : Nat) : s.blank.drop h b = (s.drop h b).blank :=
  retire_blank { s with handles := s.handles.set h none } b

theorem write_blank (s : Session) (b : Nat) (chunk : Bytes) :
    s.blank.write b (Bytes.blank chunk) = Prod.map blank Effects.blank (s.write b chunk) :=
  onBuffer_blank s b (Buffer.write_blank chunk)

theorem close_blank (s : Session) (b : Nat) :
    s.blank.close b = Prod.map blank Effects.blank (s.close b) :=
  onBuffer_blank s b Buffer.close_blank

theorem read_blank (s : Session) (b : Nat) (call : Call) :
    s.blank.read b call = Prod.map blank Effects.blank (s.read b call) :=
  onBuffer_blank { s with started := s.started + 1 } b
    (Buffer.read_blank { id := s.started, call })

theorem startDeadline_blank (s : Session) (b : Nat) (lead : Option Lead) :
    s.blank.startDeadline b lead
      = Prod.map blank (Prod.map Effects.blank id) (s.startDeadline b lead) := by
  have hfirst := onBuffer_blank s b
    (Buffer.startDeadline_blank s.now (lead.map (Lead.instant s.now)))
  have hnow : s.blank.now = s.now := rfl
  rw [startDeadline, startDeadline]
  simp only [hnow, hfirst, Prod.map_fst, Prod.map_snd, getElem?_blank]
  generalize s.onBuffer b (·.startDeadline s.now (lead.map (Lead.instant s.now))) = out
  -- what comes next hangs on the thread's name, the generation and the deadline
  cases out.1.buffers[b]? with
  | none => rfl
  | some buffer =>
    cases lead.map (Lead.instant s.now) with
    | none => rfl
    | some deadline =>
      have hclock : out.1.blank.now = out.1.now := rfl
      have hname : buffer.blank.threadName = buffer.threadName := rfl
      simp only [Option.map_some, hclock, hname]
      by_cases hcome : deadline.hasCome out.1.now = true
      · simp only [if_pos hcome]
        rfl
      · by_cases hbad : (!isThreadName buffer.threadName) = true
        · simp only [if_neg hcome, if_pos hbad]
          rfl
        · simp only [if_neg hcome, if_neg hbad]
          rfl

theorem launch_blank (s : Session) (a : Arming) (reading : Nat) :
    s.blank.launch a reading = Prod.map blank Effects.blank (s.launch a reading) := by
  let alarm : Alarm :=
    { timer := { deadline := a.deadline }, buffer := a.buffer, generation := a.generation }
  have hwake := wakeAlarm_blank { s with alarms := s.alarms ++ [alarm] } reading s.alarms.length
  have hinstall := onBuffer_blank
    (({ s with alarms := s.alarms ++ [alarm] } : Session).wakeAlarm reading s.alarms.length).1
    a.buffer (Buffer.install_blank a.generation s.alarms.length)
  have hstate : ({ s.blank with alarms := s.blank.alarms ++ [alarm] } : Session)
      = ({ s with alarms := s.alarms ++ [alarm] } : Session).blank := rfl
  have hlength : s.blank.alarms.length = s.alarms.length := rfl
  simp only [alarm] at hstate hwake hinstall
  simp only [launch, hlength, hstate, hwake, Prod.map_fst, hinstall, Prod.map_snd]
  simp

theorem finishDeadline_blank (s : Session) (a : Arming) (launch : Launch) :
    s.blank.finishDeadline a launch
      = Prod.map blank Effects.blank (s.finishDeadline a launch) := by
  have hnow : s.blank.now = s.now := rfl
  cases launch with
  | prompt =>
    simp only [finishDeadline, hnow, launch_blank]
    rfl
  | overtaken =>
    simp only [finishDeadline, hnow, launch_blank]
    rfl
  | refused =>
    simp only [finishDeadline, onBuffer_blank s a.buffer (Buffer.startRefused_blank a.generation)]
    rfl

end Session

/-! ## Operations and reports -/

mutual

/-- The operation with the bytes of the chunks blanked out that it writes, and that the
    operations inside it write. -/
def Op.blank : Op → Op
  | .write h chunk => .write h (Bytes.blank chunk)
  | .deadline h lead during launch => .deadline h lead (Op.blankAll during) launch
  | op => op

/-- Operations one after the other, all of them blanked out. -/
def Op.blankAll : List Op → List Op
  | [] => []
  | op :: rest => op.blank :: Op.blankAll rest

end

/-- The answer with the bytes blanked out that a read handed out. -/
def Answer.blank : Answer → Answer
  | .ended outcome => .ended outcome.blank
  | a => a

mutual

/-- The report with the bytes blanked out that reads handed out, and nothing else: what
    was answered, who was woken and who waits, the events and the summary stay. -/
def Report.blank : Report → Report
  | .noHandle => .noHandle
  | .step answer during woken waiting events summary =>
    .step answer.blank (Report.blankDuring during) (blankEnded woken) waiting events summary

/-- The reports on what ran during a step, if anything could. -/
def Report.blankDuring : Option (List Report) → Option (List Report)
  | none => none
  | some reports => some (Report.blankAll reports)

/-- Reports on steps one after the other. -/
def Report.blankAll : List Report → List Report
  | [] => []
  | r :: rest => r.blank :: Report.blankAll rest

end

namespace Session

/-- A report looks at the payload nowhere but in the outcomes. -/
theorem report_blank (s : Session) (b : Option Nat) (answer : Answer) (e : Effects)
    (during : Option (List Report)) :
    s.blank.report b answer.blank e.blank (Report.blankDuring during)
      = (s.report b answer e during).blank := by
  have hwoken : (blankEnded e.ended).mergeSort (fun x y => x.1 ≤ y.1)
      = blankEnded (e.ended.mergeSort fun x y => x.1 ≤ y.1) := by
    have hmap := List.map_mergeSort (r := fun x y : Nat × Outcome => decide (x.1 ≤ y.1))
      (s := fun x y : Nat × Outcome => decide (x.1 ≤ y.1)) (f := Prod.map id Outcome.blank)
      (l := e.ended) fun _ _ _ _ => rfl
    exact hmap.symm
  have hwaiting : (b.map s.blank.waitingIds).getD [] = (b.map s.waitingIds).getD [] := by
    cases b <;> simp
  have hsummary : b.bind s.blank.summary? = b.bind s.summary? := by
    cases b <;> simp
  rw [report, report, hwaiting, hsummary, Report.blank]
  show Report.step _ _ ((blankEnded e.ended).mergeSort _) _ _ _ = _
  rw [hwoken]
  rfl

theorem dropReport_blank (s : Session) (b : Nat) :
    s.blank.dropReport b = (s.dropReport b).blank := by
  rw [dropReport, dropReport, waitingIds_blank]
  rfl

theorem withHandle_blank (s : Session) (h : Nat) {f g : Nat → Session × Report}
    (hfg : ∀ b, g b = Prod.map blank Report.blank (f b)) :
    s.blank.withHandle h g = Prod.map blank Report.blank (s.withHandle h f) := by
  rw [withHandle, withHandle, bufferOf?_blank]
  cases s.bufferOf? h with
  | none => rfl
  | some b => exact hfg b

end Session

mutual

-- on the tree of operations: those inside a change of a deadline are a list of their own

/-- To run the blank operation on the blank session comes to the same, blanked out. -/
theorem Op.run_blank (op : Op) (s : Session) :
    op.blank.run s.blank = Prod.map Session.blank Report.blank (op.run s) := by
  match op with
  | .create handle config =>
    show ((s.blank.create config).1, (s.blank.create config).1.report (s.bufferOf? handle)
      (.handle (s.blank.create config).2) {} none) = _
    rw [Session.create_blank]
    exact Prod.ext rfl (Session.report_blank _ (s.bufferOf? handle) (.handle _) {} none)
  | .share handle =>
    refine Session.withHandle_blank s handle fun b => ?_
    exact Prod.ext rfl (Session.report_blank _ (some b) (.handle _) {} none)
  | .drop handle =>
    refine Session.withHandle_blank s handle fun b => ?_
    simp only [Session.drop_blank]
    exact Prod.ext rfl (Session.dropReport_blank _ b)
  | .write handle chunk =>
    refine Session.withHandle_blank s handle fun b => ?_
    simp only [Session.write_blank]
    exact Prod.ext rfl (Session.report_blank _ (some b) .done _ none)
  | .close handle =>
    refine Session.withHandle_blank s handle fun b => ?_
    simp only [Session.close_blank]
    exact Prod.ext rfl (Session.report_blank _ (some b) .done _ none)
  | .inspect handle =>
    refine Session.withHandle_blank s handle fun b => ?_
    have hanswer : (((s.summary? b).map Answer.summary).getD .done).blank
        = ((s.summary? b).map Answer.summary).getD .done := by
      cases s.summary? b <;> rfl
    have hreport := Session.report_blank s (some b)
      (((s.summary? b).map Answer.summary).getD .done) {} none
    rw [hanswer] at hreport
    simp only [Session.summary?_blank]
    exact Prod.ext rfl hreport
  | .read handle call =>
    refine Session.withHandle_blank s handle fun b => ?_
    simp only [Session.read_blank]
    obtain ⟨t, events, ended, released, copied⟩ := s.read b call
    -- the call's own outcome is its answer
    cases ended with
    | nil =>
      exact Prod.ext rfl (t.report_blank (some b) (.blocked s.started)
        { events, released, copied } none)
    | cons first rest =>
      exact Prod.ext rfl (t.report_blank (some b) (.ended first.2)
        { events, released, copied } none)
  | .deadline handle lead during launch =>
    unfold Op.blank Op.run
    refine Session.withHandle_blank s handle fun b => ?_
    simp only [Session.startDeadline_blank]
    obtain ⟨t, e₁, opening⟩ := s.startDeadline b lead
    cases opening with
    | complete => exact Prod.ext rfl (t.report_blank (some b) .deadlineSet e₁ none)
    | badThreadName => exact Prod.ext rfl (t.report_blank (some b) .badThreadName e₁ none)
    | inFlight a =>
      have hinside := Op.runAll_blank during t
      simp only [Prod.map, id_eq, hinside, Session.finishDeadline_blank, Session.retire_blank]
      generalize Op.runAll during t = inside
      generalize inside.1.finishDeadline a launch = last
      have hreport := last.1.report_blank (some b) .deadlineSet (e₁ ++ last.2) (some inside.2)
      rw [Effects.blank_append] at hreport
      exact Prod.ext rfl hreport
  | .elapse handle =>
    show (s.blank.elapse.1, s.blank.elapse.1.report (s.bufferOf? handle) .done s.blank.elapse.2
      none) = _
    rw [Session.elapse_blank]
    exact Prod.ext rfl (Session.report_blank _ (s.bufferOf? handle) .done _ none)

/-- Operations one after the other. -/
theorem Op.runAll_blank (ops : List Op) (s : Session) :
    Op.runAll (Op.blankAll ops) s.blank
      = Prod.map Session.blank Report.blankAll (Op.runAll ops s) := by
  match ops with
  | [] => rfl
  | op :: rest =>
    have hfirst := Op.run_blank op s
    have hrest := Op.runAll_blank rest (op.run s).1
    show ((Op.runAll (Op.blankAll rest) (op.blank.run s.blank).1).1, (op.blank.run s.blank).2
      :: (Op.runAll (Op.blankAll rest) (op.blank.run s.blank).1).2) = _
    rw [hfirst, Prod.map_fst, hrest]
    rfl

end

namespace Session

/-! ## Two runs -/

/-- Sessions that are the same but for the payload run on in the same way: to every
    boundary of the one there is one of the other. -/
theorem exists_boundary_of_blank_eq {s t : Session} {ops : List Op} {seen : List Report}
    {underway : List (Nat × Outcome)} (h : Boundary s ops seen underway t) {s' : Session}
    {ops' : List Op} (hs : s.blank = s'.blank) (hops : Op.blankAll ops = Op.blankAll ops') :
    ∃ seen' underway' t', Boundary s' ops' seen' underway' t'
      ∧ Report.blankAll seen = Report.blankAll seen'
      ∧ blankEnded underway = blankEnded underway' ∧ t.blank = t'.blank := by
  induction h generalizing s' ops' with
  | here s ops => exact ⟨[], [], s', .here s' ops', rfl, rfl, hs⟩
  | @next s t op ops seen underway _ ih =>
    cases ops' with
    | nil => cases hops
    | cons op' rest' =>
      obtain ⟨hop, hrest⟩ := List.cons.inj hops
      have hrun := op.run_blank s
      rw [hop, hs, op'.run_blank s'] at hrun
      have hsession : (op'.run s').1.blank = (op.run s).1.blank := congrArg Prod.fst hrun
      have hreport : (op'.run s').2.blank = (op.run s).2.blank := congrArg Prod.snd hrun
      obtain ⟨seen', underway', t', hboundary, hseen, hunderway, ht⟩ := ih hsession.symm hrest
      refine ⟨(op'.run s').2 :: seen', underway', t', .next hboundary, ?_, hunderway, ht⟩
      rw [Report.blankAll, Report.blankAll, hreport, hseen]
  | @inside s t first e a handle b lead during ops launch seen underway hhandle hfirst _ ih =>
    cases ops' with
    | nil => cases hops
    | cons op' rest' =>
      obtain ⟨hop, -⟩ := List.cons.inj hops
      -- only a change of a deadline blanks out to one
      cases op' with
      | deadline handle' lead' during' launch' =>
        obtain ⟨rfl, rfl, hduring, rfl⟩ := Op.deadline.inj hop
        have hopening := s.startDeadline_blank b lead
        rw [hs, s'.startDeadline_blank b lead, hfirst] at hopening
        cases hfirst' : s'.startDeadline b lead with
        | mk first' opened =>
          obtain ⟨e', opening'⟩ := opened
          rw [hfirst'] at hopening
          have hblank : first'.blank = first.blank := congrArg Prod.fst hopening
          have he : e'.blank = e.blank := congrArg (·.2.1) hopening
          obtain rfl : opening' = .inFlight a := congrArg (·.2.2) hopening
          have hended : blankEnded e'.ended = blankEnded e.ended := congrArg Effects.ended he
          have hhandle' : s'.bufferOf? handle = some b := by
            rw [← bufferOf?_blank, ← hs, bufferOf?_blank, hhandle]
          obtain ⟨seen', underway', t', hboundary, hseen, hunderway, ht⟩ :=
            ih hblank.symm hduring
          refine ⟨seen', e'.ended ++ underway', t', .inside hhandle' hfirst' hboundary, hseen, ?_,
            ht⟩
          simp only [blankEnded, List.map_append] at hended hunderway ⊢
          rw [hended, hunderway]
      | _ => cases hop

/-- Two runs of the same operations, but for the bytes of the chunks written, report the
    same but for the bytes handed out: the same reads wait, are woken in the same steps
    and end with as many bytes or with the same failure, and the same events and summaries
    are shown. At every boundary between steps the two runs have the same handles, and for
    each buffer the same record of all its events, down to each look inside a repeating call,
    the same summary and the same readers that wait. -/
theorem payload_independence {c : Config} {ops ops' : List Op}
    (h : Op.blankAll ops = Op.blankAll ops') :
    Report.blankAll (reports c ops) = Report.blankAll (reports c ops')
      ∧ ∀ seen underway t, Boundary (({} : Session).create c).1 ops seen underway t →
          ∃ seen' underway' t', Boundary (({} : Session).create c).1 ops' seen' underway' t'
            ∧ Report.blankAll seen = Report.blankAll seen'
            ∧ blankEnded underway = blankEnded underway' ∧ t.handles = t'.handles
            ∧ t.records.length = t.buffers.length ∧ t.records = t'.records
            ∧ ∀ b, t.summary? b = t'.summary? b ∧ t.waitingIds b = t'.waitingIds b := by
  constructor
  · have hrun := Op.runAll_blank ops (({} : Session).create c).1
    rw [h, Op.runAll_blank ops' (({} : Session).create c).1] at hrun
    exact (congrArg Prod.snd hrun).symm
  · intro seen underway t hboundary
    obtain ⟨seen', underway', t', hboundary', hseen, hunderway, ht⟩ :=
      exists_boundary_of_blank_eq hboundary rfl h
    have hhandles : t.handles = t'.handles := by rw [← handles_blank t, ht, handles_blank]
    have hrecords : t.records = t'.records := by rw [← records_blank t, ht, records_blank]
    refine ⟨seen', underway', t', hboundary', hseen, hunderway, hhandles,
      hboundary.length_records, hrecords, fun b => ⟨?_, ?_⟩⟩
    · rw [← summary?_blank t, ht, summary?_blank]
    · rw [← waitingIds_blank t, ht, waitingIds_blank]

/-- A write inside a change of the deadline wakes a reader; the chunks differ in every
    byte. The reader looks again and again to fill its destination, and finds the deadline
    reached in the end: its looks are recorded and not shown. -/
theorem payload_independence_of_nested_write :
    let ops (chunk rest : Bytes) : List Op :=
      [.read 0 (.fill 3), .share 0, .deadline 0 (some .soon) [.write 1 chunk, .elapse 1] .prompt,
        .write 0 rest, .read 0 (.stream 4)]
    Op.blankAll (ops [1, 2] [3, 4]) = Op.blankAll (ops [250, 251] [252, 253])
      ∧ Report.blankAll (reports {} (ops [1, 2] [3, 4]))
        = Report.blankAll (reports {} (ops [250, 251] [252, 253]))
      ∧ ∃ seen' underway' t', Boundary (({} : Session).create {}).1
            (ops [250, 251] [252, 253]) seen' underway' t'
          ∧ t'.records = [[.blocking true, .blocking true, .wrote 2, .read 2 true, .blocking true,
              .deadlineReached 1, .wrote 2]] := by
  intro ops
  have hops : Op.blankAll (ops [1, 2] [3, 4]) = Op.blankAll (ops [250, 251] [252, 253]) := rfl
  obtain ⟨hreports, hboundaries⟩ := payload_independence (c := {}) hops
  obtain ⟨seen', underway', t', hboundary, -, -, -, -, hrecords, -⟩ :=
    hboundaries _ _ _ (boundary_runAll _ (ops [1, 2] [3, 4]))
  refine ⟨hops, hreports, seen', underway', t', hboundary, hrecords.symm.trans ?_⟩
  decide +kernel

end Session

end StreamBuffer
