/-
  StreamBuffer.Proofs.Config.CapacityRange

  Which numbers a document may have as its capacity.

  Around the value of its capacity, a document is the object up to there and the object from
  there on (`UpToCapacity`, `BehindCapacity`), and every object with a capacity can be taken
  apart like this (`WrittenObject.exists_capacity`). What is read in between is one literal,
  and what it comes to as a capacity is `Numeral.asCapacity`: a capacity if it is a natural
  number of 64 bits, and otherwise an error of its own. So the document comes to that as
  well (`Config.parse_capacity`), and the range of capacities is exact
  (`Config.capacity_range`): no other number is taken, and none is changed.
-/
import StreamBuffer.Proofs.Config.Meaning
import StreamBuffer.Proofs.Json.Magnitude

namespace StreamBuffer

open Double

/-! ## Documents around a capacity -/

/-- The text writes members that others follow. -/
inductive WrittenBefore : List Member → List Char → Prop where
  | none : WrittenBefore [] []
  | members {members : List Member} {text : List Char} (h : WrittenMembers members text) :
      WrittenBefore members (text ++ [','])

/-- The text writes members that follow others. -/
inductive WrittenBehind : List Member → List Char → Prop where
  | none : WrittenBehind [] []
  | members {members : List Member} {text : List Char} (h : WrittenMembers members text) :
      WrittenBehind members (',' :: text)

/-- The text is an object up to the value of its capacity, with the members in front. -/
inductive UpToCapacity (members : List Member) : List Char → Prop where
  | mk {before first beforeKey key behindKey beforeValue : List Char} (hbefore : Blanks before)
      (hfirst : WrittenBefore members first) (hbeforeKey : Blanks beforeKey)
      (hkey : IsLiteralOf ConfigField.segmentCapacity.key key) (hbehindKey : Blanks behindKey)
      (hbeforeValue : Blanks beforeValue) :
      UpToCapacity members
        (before ++ '{' :: (first ++ (beforeKey ++ (key ++ (behindKey ++ ':' :: beforeValue)))))

/-- The text is an object behind that value, with the members that follow. -/
inductive BehindCapacity (members : List Member) : List Char → Prop where
  | mk {behindValue last behind : List Char} (hbehindValue : Blanks behindValue)
      (hlast : WrittenBehind members last) (hbehind : Blanks behind) :
      BehindCapacity members (behindValue ++ (last ++ '}' :: behind))

theorem WrittenBefore.cons {m : Member} {members : List Member} {first rest : List Char}
    (hfirst : m.Written first) (h : WrittenBefore members rest) :
    WrittenBefore (m :: members) (first ++ ',' :: rest) := by
  cases h with
  | none => exact .members (.last hfirst)
  | members hrest =>
    rw [← List.cons_append, ← List.append_assoc]
    exact .members (.more hfirst hrest)

/-- A member stands between those in front of it and those that follow. -/
theorem WrittenMembers.exists_split {ms ms' : List Member} {m : Member} {text : List Char}
    (h : WrittenMembers (ms ++ m :: ms') text) :
    ∃ first middle last, WrittenBefore ms first ∧ m.Written middle ∧ WrittenBehind ms' last
      ∧ text = first ++ (middle ++ last) := by
  induction ms generalizing text with
  | nil =>
    cases h with
    | last hm => exact ⟨[], text, [], .none, hm, .none, (List.append_nil text).symm⟩
    | @more _ _ middle rest hm hrest =>
      exact ⟨[], middle, ',' :: rest, .none, hm, .members hrest, rfl⟩
  | cons m₀ ms ih =>
    -- the first member is not the last one, and the others follow its comma
    generalize hmembers : m₀ :: ms ++ m :: ms' = members at h
    cases h with
    | last _ => simp at hmembers
    | @more _ _ first₀ rest hfirst hrest =>
      obtain ⟨rfl, rfl⟩ := List.cons.inj hmembers
      obtain ⟨first, middle, last, hbefore, hm, hbehind, rfl⟩ := ih hrest
      refine ⟨_, middle, last, .cons hfirst hbefore, hm, hbehind, ?_⟩
      rw [List.append_assoc, List.cons_append]

/-- Every object with a capacity is taken apart around the capacity's digits. -/
theorem WrittenObject.exists_capacity {ms ms' : List Member} {n : UInt64} {text : List Char}
    (h : WrittenObject (ms ++ .capacity n :: ms') text) :
    ∃ start rest, UpToCapacity ms start ∧ BehindCapacity ms' rest
      ∧ text = start ++ (n.toNat.repr.toList ++ rest) := by
  generalize hmembers : ms ++ .capacity n :: ms' = members at h
  cases h with
  | empty _ _ _ => simp at hmembers
  | members hbefore hall hbehind =>
    subst hmembers
    obtain ⟨first, middle, last, hfirst, hmiddle, hlast, rfl⟩ := hall.exists_split
    obtain @⟨beforeKey, key, behindKey, beforeValue, value, behindValue, hbeforeKey, hkey,
      hbehindKey, hbeforeValue, hvalue, hbehindValue⟩ := hmiddle
    cases hvalue
    refine ⟨_, _, .mk hbefore hfirst hbeforeKey hkey hbehindKey hbeforeValue,
      .mk hbehindValue hlast hbehind, ?_⟩
    simp only [List.append_assoc, List.cons_append]

/-! ## Numbers as capacities -/

namespace Numeral

/-- What a number comes to as a capacity. -/
def asCapacity (n : Numeral) : Except ConfigError UInt64 :=
  if n.IsNatural then .ok (.ofNat n.wholeValue)
  else if n.IsNegative then .error (.negativeCapacity (-n.wholeValue))
  else match n.scan.magnitude? with
    | some x =>
      .error (.wrongType (.double (if n.scan.negative then -x else x)) (.value .segmentCapacity))
    | none => .error .malformed

variable {n : Numeral}

theorem asCapacity_of_isNatural (h : n.IsNatural) : n.asCapacity = .ok (.ofNat n.wholeValue) :=
  if_pos h

theorem not_isNatural_of_isNegative (h : n.IsNegative) : ¬ n.IsNatural := by
  intro hnatural
  cases h.1.symm.trans hnatural.1

theorem asCapacity_of_isNegative (h : n.IsNegative) :
    n.asCapacity = .error (.negativeCapacity (-n.wholeValue)) := by
  rw [asCapacity, if_neg (not_isNatural_of_isNegative h), if_pos h]

/-- Every other number is a double, or nothing. -/
theorem asCapacity_cases (hnatural : ¬ n.IsNatural) (hnegative : ¬ n.IsNegative) :
    (n.scan.magnitude? ≠ none
        ∧ ∃ x, n.asCapacity = .error (.wrongType (.double x) (.value .segmentCapacity)))
      ∨ (n.scan.magnitude? = none ∧ n.asCapacity = .error .malformed) := by
  rw [asCapacity, if_neg hnatural, if_neg hnegative]
  cases h : n.scan.magnitude? with
  | some x => exact Or.inl ⟨Option.some_ne_none x, _, rfl⟩
  | none => exact Or.inr ⟨rfl, rfl⟩

theorem exists_asCapacity_iff : (∃ c, n.asCapacity = .ok c) ↔ n.IsNatural := by
  constructor
  · rintro ⟨c, hc⟩
    by_contra hnatural
    by_cases hnegative : n.IsNegative
    · rw [asCapacity_of_isNegative hnegative] at hc
      cases hc
    · rcases asCapacity_cases hnatural hnegative with ⟨-, x, h⟩ | ⟨-, h⟩
      · rw [h] at hc
        cases hc
      · rw [h] at hc
        cases hc
  · exact fun h => ⟨_, asCapacity_of_isNatural h⟩

/-- A capacity is the number that is written. -/
theorem toNat_of_asCapacity {c : UInt64} (h : n.asCapacity = .ok c) :
    c.toNat = n.wholeValue := by
  have hnatural := exists_asCapacity_iff.mp ⟨c, h⟩
  rw [asCapacity_of_isNatural hnatural] at h
  rw [← Except.ok.inj h]
  exact UInt64.toNat_ofNat_of_lt hnatural.2.2

theorem asCapacity_eq_malformed_iff :
    n.asCapacity = .error .malformed
      ↔ n.scan.magnitude? = none ∧ ¬ n.IsNatural ∧ ¬ n.IsNegative := by
  by_cases hnatural : n.IsNatural
  · rw [asCapacity_of_isNatural hnatural]
    exact ⟨nofun, fun h => absurd hnatural h.2.1⟩
  by_cases hnegative : n.IsNegative
  · rw [asCapacity_of_isNegative hnegative]
    exact ⟨nofun, fun h => absurd hnegative h.2.2⟩
  rcases asCapacity_cases hnatural hnegative with ⟨hsome, x, h⟩ | ⟨hnone, h⟩
  · rw [h]
    exact ⟨nofun, fun h => absurd h.1 hsome⟩
  · exact ⟨fun _ => ⟨hnone, hnatural, hnegative⟩, fun _ => h⟩

/-- An integer of 64 bits is never too large for a double. -/
theorem magnitude_lt_of_isInteger (hinteger : n.IsInteger) (hle : n.wholeValue ≤ 2 ^ 64) :
    n.magnitude < (1 + 1 / 2 ^ 50) * overflow := by
  rw [magnitude_of_isInteger hinteger]
  calc (n.wholeValue : ℚ) ≤ 2 ^ 64 := by exact_mod_cast hle
    _ < overflow := two_pow_lt_overflow
    _ ≤ (1 + 1 / 2 ^ 50) * overflow := le_mul_of_one_le_left overflow_pos.le (by norm_num)

/-- A number is too large for a double from `overflow` on, to one part in `2 ^ 50`. -/
theorem malformed_bounds (hsmall : n.exponentAmount < 2 ^ 31) :
    (n.asCapacity = .error .malformed → (1 - 1 / 2 ^ 50) * overflow ≤ n.magnitude)
      ∧ ((1 + 1 / 2 ^ 50) * overflow ≤ n.magnitude → n.asCapacity = .error .malformed) := by
  have hbounds := NumberScan.magnitude?_bounds n.digits_lt (by rwa [exponentAmount_scan])
  rw [exactMagnitude_scan] at hbounds
  obtain ⟨hnone, hsome⟩ := hbounds
  rw [asCapacity_eq_malformed_iff]
  refine ⟨fun h => hnone h.1, fun h => ⟨?_, fun hnatural => ?_, fun hnegative => ?_⟩⟩
  · by_contra hne
    exact absurd (hsome hne) (not_lt.mpr h)
  · exact absurd (magnitude_lt_of_isInteger hnatural.2.1 hnatural.2.2.le) (not_lt.mpr h)
  · have hle : n.wholeValue ≤ 2 ^ 64 := hnegative.2.2.2.trans (by norm_num)
    exact absurd (magnitude_lt_of_isInteger hnegative.2.1 hle) (not_lt.mpr h)

/-- With an exponent of more than 31 bits, a number is too large unless it is zero or the
    exponent negative. -/
theorem malformed_iff_of_large (hlarge : 2 ^ 31 ≤ n.exponentAmount) :
    n.asCapacity = .error .malformed ↔ '-' ∉ n.exponent ∧ n.magnitude ≠ 0 := by
  -- the ranges of integers are out of the question, for want of an exponent
  have hinteger : ¬ n.IsInteger := by
    intro h
    have hzero : n.exponentAmount = 0 := by
      rw [exponentAmount, exponentDigits, h.2]
      rfl
    omega
  have hnone := NumberScan.magnitude?_eq_none_iff n.digits_lt (by rwa [exponentAmount_scan])
  rw [exactMagnitude_scan] at hnone
  have hsign : n.scan.exponentNegative = false ↔ '-' ∉ n.exponent := decide_eq_false_iff_not
  rw [asCapacity_eq_malformed_iff, hnone, hsign,
    and_iff_left ⟨fun h => hinteger h.2.1, fun h => hinteger h.2.1⟩]

end Numeral

/-! ## Reading a number as the capacity -/

namespace DocumentScan

variable {ms ms' : List Member}

/-- Members that others follow are learnt, and lead to where the next key is due. -/
theorem reads_before {text : List Char} (h : WrittenBefore ms text)
    (hnodup : (memberFields ms).Nodup) :
    ∃ place, BeforeKey place
      ∧ (({} : DocumentScan).goto .firstKey).Reads text ((ms.foldl learn {}).goto place) := by
  cases h with
  | none => exact ⟨.firstKey, Or.inl rfl, .nil _⟩
  | members hmembers =>
    have hnew : ∀ f ∈ memberFields ms, ({} : DocumentScan).isSet f = false := by
      intro f _
      cases f <;> rfl
    have hlead := leadsTo_members hmembers (Or.inl rfl) {}
    rw [foldlM_learn?_of_nodup hnodup hnew] at hlead
    exact ⟨.nextKey, Or.inr rfl, Completes.concat hlead (c := ',') rfl rfl⟩

/-- Members that follow others are learnt, and lead to where the object may close. -/
theorem completes_behind {text : List Char} (h : WrittenBehind ms text)
    (hnodup : (memberFields ms).Nodup) {r : DocumentScan}
    (hnew : ∀ f ∈ memberFields ms, r.isSet f = false) :
    (r.goto .afterMember).Completes text ((ms.foldl learn r).goto .afterMember) := by
  cases h with
  | none => exact Reads.completes (.nil _)
  | members hmembers =>
    have hcomma : (r.goto .afterMember).accept ',' = .ok (r.goto .nextKey) := rfl
    have hlead := leadsTo_members hmembers (Or.inr rfl) r
    rw [foldlM_learn?_of_nodup hnodup hnew] at hlead
    exact (reads_singleton hcomma).trans_completes hlead

/-- The object is read up to the value of its capacity, if none was in front of it. -/
theorem reads_upToCapacity {text : List Char} (h : UpToCapacity ms text)
    (hnodup : (memberFields ms).Nodup) (hnew : .segmentCapacity ∉ memberFields ms) :
    ({} : DocumentScan).Reads text
      ((ms.foldl learn {}).goto (.value (.member .segmentCapacity))) := by
  obtain @⟨before, first, beforeKey, key, behindKey, beforeValue, hbefore, hfirst, hbeforeKey,
    hkey, hbehindKey, hbeforeValue⟩ := h
  obtain ⟨place, hplace, hmembers⟩ := reads_before hfirst hnodup
  let r := ms.foldl learn {}
  let use := ValueUse.member .segmentCapacity
  have hopen : ({} : DocumentScan).accept '{' = .ok (({} : DocumentScan).goto .firstKey) := rfl
  have hbetween : (r.goto place).place.isBetween = true := by
    rcases hplace with rfl | rfl <;> rfl
  have hquote : (r.goto place).accept '"' = .ok (r.goto (.string .key {})) := by
    rcases hplace with rfl | rfl <;> rfl
  have hname : (r.goto place).Reads key (r.goto (.colon use)) := by
    have hunset : r.isSet .segmentCapacity = false := isSet_foldl_of_not_mem hnew {}
    have hfield : ConfigField.ofKey? ConfigField.segmentCapacity.key = some .segmentCapacity :=
      rfl
    rw [Reads, foldlM_literal hquote hkey]
    simp only [deliverString, hfield, hunset]
    rfl
  have hcolon : (r.goto (.colon use)).accept ':' = .ok (r.goto (.value use)) := rfl
  -- part by part, in the order in which they stand in the text
  have hobject := (reads_blanks (r := ({} : DocumentScan)) rfl hbefore).trans
    (Reads.cons hopen hmembers)
  have hkeyed := (reads_blanks hbetween hbeforeKey).trans hname
  have hvalue := (reads_blanks (r := r.goto (.colon use)) rfl hbehindKey).trans
    (Reads.cons hcolon (reads_blanks (r := r.goto (.value use)) rfl hbeforeValue))
  have hall := (hobject.trans hkeyed).trans hvalue
  simpa only [List.append_assoc, List.cons_append] using hall

/-- Behind the value, if it is taken, the object is read to its end. -/
theorem foldlM_behindCapacity {text : List Char} (h : BehindCapacity ms text)
    (hnodup : (memberFields ms).Nodup) {r : DocumentScan}
    (hnew : ∀ f ∈ memberFields ms, r.isSet f = false) :
    (text.foldlM accept (r.goto .afterMember) >>= finish) = .ok (ms.foldl learn r).config := by
  obtain @⟨behindValue, last, behind, hbehindValue, hlast, hbehind⟩ := h
  let t := ms.foldl learn r
  have hclose : (t.goto .afterMember).accept '}' = .ok (t.goto .done) := rfl
  have hread := (reads_blanks (r := r.goto .afterMember) rfl hbehindValue).trans
    ((completes_behind hlast hnodup hnew).concat (c := '}') rfl hclose)
  rw [List.append_cons last, ← List.append_assoc, hread.foldlM_eq]
  exact finish_of_blanks t hbehind

/-- What stands behind the value does not go on with a number. -/
theorem exists_cons_behindCapacity {text : List Char} (h : BehindCapacity ms text) :
    ∃ c rest, text = c :: rest ∧ continuesNumber c = false := by
  obtain @⟨behindValue, last, behind, hbehindValue, hlast, hbehind⟩ := h
  cases behindValue with
  | nil =>
    cases hlast with
    | none => exact ⟨'}', _, rfl, rfl⟩
    | members _ => exact ⟨',', _, rfl, rfl⟩
  | cons c rest =>
    exact ⟨c, _, rfl, continuesNumber_of_isBlank (hbehindValue c List.mem_cons_self)⟩

/-- A number with a character behind it leads to where it is delivered, or to the error that it
    makes there. -/
theorem foldlM_numeral {use : ValueUse} {place : DocumentPlace} (hawaits : Awaits place use)
    (n : Numeral) {r : DocumentScan} {c : Char} (hc : continuesNumber c = false)
    (rest : List Char) :
    (∀ t, r.deliverNumber use n.scan = .ok t → t.place.isBetween = true →
        (n.text ++ c :: rest).foldlM accept (r.goto place) = (c :: rest).foldlM accept t)
      ∧ (∀ e, r.deliverNumber use n.scan = .error e →
        (n.text ++ c :: rest).foldlM accept (r.goto place) = .error e) := by
  obtain ⟨d, tail, scan, htext, hstart, hrun⟩ := NumberScan.exists_scan_numeral n
  have hcomplete := NumberScan.isComplete_place n
  rw [htext]
  refine ⟨fun t ht hbetween => ?_, fun e he => ?_⟩
  · exact (completes_number hawaits hstart hrun hcomplete ht hbetween).foldlM_eq hc rest
  · exact foldlM_number_of_error hawaits hstart hrun hcomplete he hc rest

/-- Delivered as the capacity, a number is learnt as what it comes to. -/
theorem deliverNumber_capacity (r : DocumentScan) (n : Numeral) :
    r.deliverNumber (.member .segmentCapacity) n.scan
      = n.asCapacity.map fun c => (r.learn (.capacity c)).goto .afterMember := by
  by_cases hnatural : n.IsNatural
  · have hnonneg : (0 : ℤ) ≤ n.wholeValue := Int.natCast_nonneg _
    simp only [deliverNumber, Numeral.value?_scan, Numeral.asCapacity, if_pos hnatural, deliver,
      assign, if_pos hnonneg]
    rfl
  by_cases hnegative : n.IsNegative
  · have hpos : 0 < n.wholeValue := hnegative.2.2.1
    have hneg : ¬ (0 : ℤ) ≤ -n.wholeValue := by omega
    simp only [deliverNumber, Numeral.value?_scan, Numeral.asCapacity, if_neg hnatural,
      if_pos hnegative, deliver, assign, if_neg hneg]
    rfl
  simp only [deliverNumber, Numeral.value?_scan, Numeral.asCapacity, if_neg hnatural,
    if_neg hnegative, NumberScan.double?]
  cases n.scan.magnitude? <;> rfl

end DocumentScan

/-! ## The range of capacities -/

/-- A message that is put together from its parts. -/
theorem message_eq (before kind number : String) :
    before ++ (kind ++ number ++ "`") ++ ", expected " ++ "usize"
      = before ++ kind ++ number ++ "`, expected usize" := by
  have hend : "`, expected usize" = "`" ++ (", expected " ++ "usize") := by decide
  rw [hend]
  simp only [String.append_assoc]

theorem message?_negativeCapacity (n : ℤ) :
    (ConfigError.negativeCapacity n).message?
      = some ("invalid value: integer `" ++ toString n ++ "`, expected usize") := by
  have hbegin : "invalid value: integer `" = "invalid value: " ++ "integer `" := by decide
  rw [hbegin]
  exact congrArg some (message_eq _ _ _)

theorem message?_wrongType_double (x : Float) :
    (ConfigError.wrongType (.double x) (.value .segmentCapacity)).message?
      = some ("invalid type: floating point `" ++ floatText messageStyle x
          ++ "`, expected usize") := by
  have hbegin : "invalid type: floating point `" = "invalid type: " ++ "floating point `" := by
    decide
  rw [hbegin]
  exact congrArg some (message_eq _ _ _)

namespace Config

open DocumentScan

/-- A document with a number as its capacity is the config with what the number comes to, if
    that is a capacity. -/
theorem parse_capacity (n : Numeral) {ms ms' : List Member} {start rest : List Char}
    (hstart : UpToCapacity ms start) (hrest : BehindCapacity ms' rest)
    (hnodup : (memberFields ms ++ .segmentCapacity :: memberFields ms').Nodup) :
    parse (start ++ (n.text ++ rest))
      = n.asCapacity.map fun c => ((ms ++ .capacity c :: ms').foldl learn {}).config := by
  obtain ⟨hbefore, hfrom, hapart⟩ := List.nodup_append.mp hnodup
  obtain ⟨hother, hbehind⟩ := List.nodup_cons.mp hfrom
  have hfresh : ∀ f ∈ ConfigField.segmentCapacity :: memberFields ms', f ∉ memberFields ms :=
    fun f hf hmem => hapart f hmem f hf rfl
  let r := ms.foldl learn {}
  have hread := reads_upToCapacity hstart hbefore (hfresh _ List.mem_cons_self)
  -- what stands behind the literal ends it, whatever the literal comes to
  obtain ⟨c, tail, rfl, hc⟩ := exists_cons_behindCapacity hrest
  obtain ⟨hok, herror⟩ := foldlM_numeral (.value (.member .segmentCapacity)) n (r := r) hc tail
  rw [deliverNumber_capacity] at hok herror
  rw [parse, hread.foldlM_eq]
  cases hcapacity : n.asCapacity with
  | error e =>
    rw [hcapacity] at herror
    rw [herror e rfl]
    rfl
  | ok capacity =>
    rw [hcapacity] at hok
    have hnew : ∀ f ∈ memberFields ms', (r.learn (.capacity capacity)).isSet f = false := by
      intro f hf
      have hunset : r.isSet f = false := by
        rw [isSet_foldl_of_not_mem (hfresh f (List.mem_cons_of_mem _ hf))]
        cases f <;> rfl
      rw [Bool.eq_false_iff, ne_eq, isSet_learn, not_or, hunset]
      refine ⟨fun h => ?_, Bool.false_ne_true⟩
      obtain rfl := Option.some.inj h
      exact hother hf
    rw [hok _ rfl rfl, foldlM_behindCapacity hrest hbehind hnew, Except.map, List.foldl_append]
    rfl

/-- The document is refused with the error, which has the message. -/
def Fails (text : List Char) (e : ConfigError) (message : String) : Prop :=
  parse text = .error e ∧ e.message? = some message

/-- A document comes to what its capacity does: to a config if that is one, and otherwise to
    its error. -/
theorem parse_capacity_iff (n : Numeral) {ms ms' : List Member} {start rest : List Char}
    (hstart : UpToCapacity ms start) (hrest : BehindCapacity ms' rest)
    (hnodup : (memberFields ms ++ .segmentCapacity :: memberFields ms').Nodup) :
    (∀ c, parse (start ++ (n.text ++ rest)) = .ok c ↔ ∃ k, n.asCapacity = .ok k
        ∧ c = ((ms ++ .capacity k :: ms').foldl learn {}).config)
      ∧ (∀ e, parse (start ++ (n.text ++ rest)) = .error e ↔ n.asCapacity = .error e) := by
  rw [parse_capacity n hstart hrest hnodup]
  cases n.asCapacity with
  | ok k =>
    refine ⟨fun c => ⟨fun h => ⟨k, rfl, (Except.ok.inj h).symm⟩, ?_⟩, fun e => ⟨nofun, nofun⟩⟩
    rintro ⟨k', hk', rfl⟩
    obtain rfl : k = k' := Except.ok.inj hk'
    rfl
  | error e =>
    refine ⟨fun c => ⟨nofun, nofun⟩, fun e' => ⟨fun h => ?_, fun h => ?_⟩⟩
    · rw [Except.error.inj h]
    · rw [Except.error.inj h]
      rfl

/-- What a document is read as, with any number as its capacity. It is a config if and only if
    the number is written as a row of digits, without a leading zero, and has 64 bits. The
    capacity is then that number, and the other members have their values.

    A negative integer of 64 bits is refused by its value, and every other number as a double,
    or as malformed if it is too large for one. That is from `2 ^ 1024` on: to one part in
    `2 ^ 50`, since a double is found in up to three roundings. An exponent that has more than
    31 bits settles by its sign which of the two it is, unless all digits are zeros. -/
theorem capacity_range (n : Numeral) {ms ms' : List Member} {start rest : List Char}
    (hstart : UpToCapacity ms start) (hrest : BehindCapacity ms' rest)
    (hnodup : (memberFields ms ++ .segmentCapacity :: memberFields ms').Nodup) :
    let text := start ++ (n.text ++ rest)
    ((∃ c, parse text = .ok c) ↔ n.IsNatural)
      ∧ (∀ c, parse text = .ok c → c.segmentCapacity.toNat = n.wholeValue
          ∧ c.Describes (ms ++ .capacity c.segmentCapacity :: ms'))
      ∧ (n.IsNegative → Fails text (.negativeCapacity (-n.wholeValue))
          ("invalid value: integer `" ++ toString (-(n.wholeValue : ℤ)) ++ "`, expected usize"))
      ∧ (¬ n.IsNatural → ¬ n.IsNegative →
          (∃ x, Fails text (.wrongType (.double x) (.value .segmentCapacity))
              ("invalid type: floating point `" ++ floatText messageStyle x
                ++ "`, expected usize"))
            ∨ parse text = .error .malformed)
      ∧ (n.exponentAmount < 2 ^ 31 →
          (parse text = .error .malformed → (1 - 1 / 2 ^ 50) * overflow ≤ n.magnitude)
            ∧ ((1 + 1 / 2 ^ 50) * overflow ≤ n.magnitude → parse text = .error .malformed))
      ∧ (2 ^ 31 ≤ n.exponentAmount →
          (parse text = .error .malformed ↔ '-' ∉ n.exponent ∧ n.magnitude ≠ 0)) := by
  intro text
  obtain ⟨hok, herror⟩ := parse_capacity_iff n hstart hrest hnodup
  refine ⟨⟨?_, ?_⟩, ?_, ?_, ?_, ?_, ?_⟩
  · rintro ⟨c, hc⟩
    obtain ⟨k, hk, -⟩ := (hok c).mp hc
    exact Numeral.exists_asCapacity_iff.mp ⟨k, hk⟩
  · intro hnatural
    exact ⟨_, (hok _).mpr ⟨_, Numeral.asCapacity_of_isNatural hnatural, rfl⟩⟩
  · intro c hc
    obtain ⟨k, hk, rfl⟩ := (hok c).mp hc
    have hfields : (memberFields (ms ++ .capacity k :: ms')).Nodup := by
      rw [memberFields, List.filterMap_append]
      exact hnodup
    have hdescribes := describes_config hfields
    have hcapacity := hdescribes.capacity k (by simp)
    rw [hcapacity]
    exact ⟨Numeral.toNat_of_asCapacity hk, hdescribes⟩
  · intro hnegative
    exact ⟨(herror _).mpr (Numeral.asCapacity_of_isNegative hnegative),
      message?_negativeCapacity _⟩
  · intro hnatural hnegative
    rcases Numeral.asCapacity_cases hnatural hnegative with ⟨-, x, h⟩ | ⟨-, h⟩
    · exact Or.inl ⟨x, (herror _).mpr h, message?_wrongType_double x⟩
    · exact Or.inr ((herror _).mpr h)
  · intro hsmall
    rw [herror]
    exact Numeral.malformed_bounds hsmall
  · intro hlarge
    rw [herror]
    exact Numeral.malformed_iff_of_large hlarge

/-- The largest capacity and the number behind it, the least integer that is told from a
    double, and a number too large for one. -/
theorem capacity_range_at_limits :
    let document := fun literal : List Char =>
      "\x7b\"segment_capacity\":".toList ++ (literal ++ "\x7d".toList)
    (∃ c, parse (document "18446744073709551615".toList) = .ok c
        ∧ c.segmentCapacity.toNat = 18446744073709551615)
      ∧ (¬ ∃ c, parse (document "18446744073709551616".toList) = .ok c)
      ∧ Fails (document "-9223372036854775808".toList) (.negativeCapacity (-9223372036854775808))
          "invalid value: integer `-9223372036854775808`, expected usize"
      ∧ parse (document "1e400".toList) = .error .malformed := by
  intro document
  have hstart : UpToCapacity [] "\x7b\"segment_capacity\":".toList :=
    @UpToCapacity.mk [] [] [] [] _ [] [] blanks_nil .none blanks_nil
      (isLiteralOf_stringLiteral _) blanks_nil blanks_nil
  have hrest : BehindCapacity [] "\x7d".toList :=
    @BehindCapacity.mk [] [] [] [] blanks_nil .none blanks_nil
  have hnodup : (memberFields [] ++ .segmentCapacity :: memberFields []).Nodup := by decide
  let largest : Numeral := ⟨[], "18446744073709551615".toList, [], [], Or.inl rfl,
    .digits (c := '1') (by decide) rfl (List.all_eq_true.mp rfl), .none, .none⟩
  let larger : Numeral := ⟨[], "18446744073709551616".toList, [], [], Or.inl rfl,
    .digits (c := '1') (by decide) rfl (List.all_eq_true.mp rfl), .none, .none⟩
  let least : Numeral := ⟨['-'], "9223372036854775808".toList, [], [], Or.inr rfl,
    .digits (c := '9') (by decide) rfl (List.all_eq_true.mp rfl), .none, .none⟩
  let huge : Numeral := ⟨[], ['1'], [], "e400".toList, Or.inl rfl,
    .digits (by decide) rfl nofun, .none,
    @IsExponent.digits 'e' [] "400".toList (Or.inl rfl) (Or.inl rfl) (by decide)⟩
  refine ⟨?_, ?_, ?_, ?_⟩
  · obtain ⟨hok, hvalue, -⟩ := capacity_range largest hstart hrest hnodup
    obtain ⟨c, hc⟩ := hok.mpr (by decide +kernel)
    exact ⟨c, hc, (hvalue c hc).1⟩
  · obtain ⟨hok, -⟩ := capacity_range larger hstart hrest hnodup
    exact mt hok.mp (by decide +kernel)
  · obtain ⟨-, -, hnegative, -⟩ := capacity_range least hstart hrest hnodup
    exact hnegative (by decide +kernel)
  · obtain ⟨-, -, -, -, hsmall, -⟩ := capacity_range huge hstart hrest hnodup
    have hvalue : decimal (huge.whole ++ huge.fraction.tail) = 1 := by decide +kernel
    have hpower : huge.power - huge.fraction.tail.length = (400 : Nat) := by decide +kernel
    have hlarge : 2 * 2 ^ 1024 ≤ 10 ^ 400 := by decide +kernel
    refine (hsmall (by decide +kernel)).2 ?_
    rw [Numeral.magnitude, hvalue, hpower, zpow_natCast, Nat.cast_one, one_mul]
    calc (1 + 1 / 2 ^ 50) * overflow ≤ 2 * overflow :=
          mul_le_mul_of_nonneg_right (by norm_num) overflow_pos.le
      _ ≤ 10 ^ 400 := by
        rw [overflow]
        exact_mod_cast hlarge

end Config

end StreamBuffer
