/-
  StreamBuffer.Proofs.Config.Members

  Written members of a config document, and what reading them comes to.

  A member is a field with its value, or another key with a value of no use. `Member.Written`
  holds of every text that writes it: any spelling of its key and its string, any value of
  JSON behind another key, and any blanks in between. `WrittenObject` and `WrittenArray` are
  the documents made of members.

  Reading members comes to learning one after the other, where a field that has a value is
  learnt no second time (`DocumentScan.learn?`). This holds of one member
  (`leadsTo_member`), of all of an object (`leadsTo_members`), and so of a document
  (`parse_object`); an array learns its elements by their places (`parse_array`).
-/
import StreamBuffer.Proofs.Config.Skipping

namespace StreamBuffer

/-! ## Written documents -/

/-- A member of a config document: a field with its value, or another key. -/
inductive Member where
  | name (s : String)
  | capacity (n : UInt64)
  | other (key : String)

namespace Member

/-- The field that the member gives a value. -/
def field? : Member → Option ConfigField
  | .name _ => some .timerThreadName
  | .capacity _ => some .segmentCapacity
  | .other _ => none

/-- The member's key. -/
def key : Member → String
  | .name _ => ConfigField.timerThreadName.key
  | .capacity _ => ConfigField.segmentCapacity.key
  | .other key => key

/-- The text writes the member's value: a string in any spelling, a number by its digits, and
    behind a key that is no field's any value. -/
inductive IsValue : Member → List Char → Prop where
  | name {s : String} {text : List Char} (h : IsLiteralOf s text) : IsValue (.name s) text
  | capacity (n : UInt64) : IsValue (.capacity n) n.toNat.repr.toList
  | other {key : String} {text : List Char} (hkey : ∀ f : ConfigField, key ≠ f.key)
      (h : IsJson .value text) : IsValue (.other key) text

/-- The text writes the member, with white space around each of its parts. -/
inductive Written : Member → List Char → Prop where
  | mk {m : Member} {before key behindKey beforeValue value behind : List Char}
      (hbefore : Blanks before) (hkey : IsLiteralOf m.key key) (hbehindKey : Blanks behindKey)
      (hbeforeValue : Blanks beforeValue) (hvalue : m.IsValue value) (hbehind : Blanks behind) :
      Written m (before ++ (key ++ (behindKey ++ ':' :: (beforeValue ++ (value ++ behind)))))

end Member

/-- The text writes the members in their order, with commas in between. -/
inductive WrittenMembers : List Member → List Char → Prop where
  | last {m : Member} {text : List Char} (h : m.Written text) : WrittenMembers [m] text
  | more {m : Member} {members : List Member} {first rest : List Char} (hfirst : m.Written first)
      (hrest : WrittenMembers members rest) : WrittenMembers (m :: members) (first ++ ',' :: rest)

/-- The text is a document with these members as an object. -/
inductive WrittenObject : List Member → List Char → Prop where
  | empty {before inside behind : List Char} (hbefore : Blanks before) (hinside : Blanks inside)
      (hbehind : Blanks behind) : WrittenObject [] (before ++ '{' :: (inside ++ '}' :: behind))
  | members {members : List Member} {before text behind : List Char} (hbefore : Blanks before)
      (h : WrittenMembers members text) (hbehind : Blanks behind) :
      WrittenObject members (before ++ '{' :: (text ++ '}' :: behind))

/-- The text writes the values of the first fields, none or one or both, with commas in
    between. -/
inductive WrittenElements : List Member → List Char → Prop where
  | none {blanks : List Char} (hblanks : Blanks blanks) : WrittenElements [] blanks
  | one {m : Member} {before value behind : List Char} (hfield : m.field? = some .timerThreadName)
      (hbefore : Blanks before) (hvalue : m.IsValue value) (hbehind : Blanks behind) :
      WrittenElements [m] (before ++ (value ++ behind))
  | two {m m' : Member} {before value behind before' value' behind' : List Char}
      (hfield : m.field? = some .timerThreadName) (hbefore : Blanks before)
      (hvalue : m.IsValue value) (hbehind : Blanks behind)
      (hfield' : m'.field? = some .segmentCapacity) (hbefore' : Blanks before')
      (hvalue' : m'.IsValue value') (hbehind' : Blanks behind') :
      WrittenElements [m, m']
        (before ++ (value ++ (behind ++ ',' :: (before' ++ (value' ++ behind')))))

/-- The text is a document with the values of these members as an array. -/
inductive WrittenArray : List Member → List Char → Prop where
  | mk {members : List Member} {before text behind : List Char} (hbefore : Blanks before)
      (h : WrittenElements members text) (hbehind : Blanks behind) :
      WrittenArray members (before ++ '[' :: (text ++ ']' :: behind))

namespace DocumentScan

/-! ## Learning members -/

/-- The document with the member's value, if it has a field. -/
def learn (r : DocumentScan) : Member → DocumentScan
  | .name s => { r with name := some s }
  | .capacity n => { r with capacity := some n }
  | .other _ => r

/-- The same, unless the field has a value already. -/
def learn? (r : DocumentScan) (m : Member) : Except ConfigError DocumentScan :=
  match m.field? with
  | some f => if r.isSet f then .error (.duplicateField f) else .ok (r.learn m)
  | none => .ok (r.learn m)

/-- The text of members leads behind them, or to the error that they make. -/
def LeadsTo (r : DocumentScan) (text : List Char) : Except ConfigError DocumentScan → Prop
  | .ok t => r.Completes text (t.goto .afterMember)
  | .error e => text.foldlM accept r = .error e

/-! ## Values -/

/-- The digits of a number lead to where it is delivered. -/
theorem completes_capacity {place : DocumentPlace} {use : ValueUse} (hawaits : Awaits place use)
    {r t : DocumentScan} {n : UInt64}
    (hdeliver : ∀ scan : NumberScan, scan.value? = some (.integer n.toNat) →
      r.deliverNumber use scan = .ok t) (hbetween : t.place.isBetween = true) :
    (r.goto place).Completes n.toNat.repr.toList t := by
  obtain ⟨c, rest, scan, scan', hdigits, -, hstart, hrun, hplace, hnegative, hvalue⟩ :=
    NumberScan.exists_scan_toDigits n.toNat
  have htext : n.toNat.repr.toList = c :: rest := by
    rw [Nat.repr_eq_ofList_toDigits, String.toList_ofList, hdigits]
  have hnumber : scan'.value? = some (.integer n.toNat) :=
    NumberScan.value?_of_lt hplace hnegative hvalue n.toNat_lt
  have hcomplete : scan'.place.isComplete = true := by
    rcases hplace with hplace | hplace <;> rw [hplace] <;> rfl
  rw [htext]
  exact completes_number hawaits hstart hrun hcomplete (hdeliver scan' hnumber) hbetween

/-- The capacity takes the number that it is given. -/
theorem assign_capacity (r : DocumentScan) (n : UInt64) :
    r.assign .segmentCapacity (.integer n.toNat) = .ok (r.learn (.capacity n)) := by
  have hnonneg : (0 : Int) ≤ (n.toNat : Int) := Int.natCast_nonneg _
  simp only [assign, if_pos hnonneg, Int.toNat_natCast, UInt64.ofNat_toNat, learn]

/-- The value of a member of the object leads behind it. -/
theorem completes_value (r : DocumentScan) {m : Member} {text : List Char} (h : m.IsValue text) :
    (r.goto (.value (m.field?.elim (.skipped []) .member))).Completes text
      ((r.learn m).goto .afterMember) := by
  cases h with
  | name hliteral =>
    let use := ValueUse.member .timerThreadName
    have hquote : (r.goto (.value use)).accept '"' = .ok (r.goto (.string (.value use) {})) := rfl
    exact Reads.completes (foldlM_literal hquote hliteral)
  | capacity n =>
    refine completes_capacity (.value (.member .segmentCapacity)) (fun scan hvalue => ?_) rfl
    simp only [deliverNumber, hvalue, deliver, assign_capacity]
    rfl
  | other _ hjson => exact completes_skipped (.value _) r hjson

/-- The value of an element of the array leads behind it, from wherever it is due. -/
theorem completes_element {place : DocumentPlace} {f : ConfigField}
    (hawaits : Awaits place (.element f)) (r : DocumentScan) {m : Member}
    (hfield : m.field? = some f) {text : List Char} (h : m.IsValue text) :
    (r.goto place).Completes text ((r.learn m).goto (.afterElement f)) := by
  cases h with
  | name hliteral =>
    obtain rfl := Option.some.inj hfield
    have hquote := hawaits.accept_eq r (c := '"') rfl (by decide)
    exact Reads.completes (foldlM_literal hquote hliteral)
  | capacity n =>
    obtain rfl := Option.some.inj hfield
    refine completes_capacity hawaits (fun scan hvalue => ?_) rfl
    simp only [deliverNumber, hvalue, deliver, assign_capacity]
    rfl
  | other => cases hfield

/-! ## Members -/

/-- Before a key: behind the opening bracket of the document, or behind a comma. -/
def BeforeKey (place : DocumentPlace) : Prop := place = .firstKey ∨ place = .nextKey

/-- Keys of no field are no field's. -/
theorem ofKey?_of_ne {key : String} (h : ∀ f : ConfigField, key ≠ f.key) :
    ConfigField.ofKey? key = none := by
  rw [ConfigField.ofKey?, if_neg (h .timerThreadName), if_neg (h .segmentCapacity)]

/-- A key leads to where its value's colon is due, unless its field has a value already. -/
theorem deliverString_key (r : DocumentScan) {m : Member} {text : List Char}
    (h : m.IsValue text) :
    r.deliverString .key m.key
      = (r.learn? m).map fun _ => r.goto (.colon (m.field?.elim (.skipped []) .member)) := by
  cases h with
  | name _ =>
    have hkey : ConfigField.ofKey? ConfigField.timerThreadName.key = some .timerThreadName := rfl
    simp only [deliverString, Member.key, hkey, learn?, Member.field?]
    split <;> rfl
  | capacity n =>
    have hkey : ConfigField.ofKey? ConfigField.segmentCapacity.key = some .segmentCapacity := rfl
    simp only [deliverString, Member.key, hkey, learn?, Member.field?]
    split <;> rfl
  | other hkey _ =>
    simp only [deliverString, Member.key, ofKey?_of_ne hkey]
    rfl

/-- A member that is learnt leads to its outcome. -/
theorem learn?_ok {r t : DocumentScan} {m : Member} (h : r.learn? m = .ok t) : t = r.learn m := by
  unfold learn? at h
  split at h
  · split at h
    · cases h
    · exact (Except.ok.inj h).symm
  · exact (Except.ok.inj h).symm

/-- Reading a member comes to learning it. -/
theorem leadsTo_member {place : DocumentPlace} (hplace : BeforeKey place) (r : DocumentScan)
    {m : Member} {text : List Char} (h : m.Written text) :
    (r.goto place).LeadsTo text (r.learn? m) := by
  obtain @⟨before, key, behindKey, beforeValue, value, behind, hbefore, hkey, hbehindKey,
    hbeforeValue, hvalue, hbehind⟩ := h
  have hbetween : (r.goto place).place.isBetween = true := by
    rcases hplace with rfl | rfl <;> rfl
  have hquote : (r.goto place).accept '"' = .ok (r.goto (.string .key {})) := by
    rcases hplace with rfl | rfl <;> rfl
  have hname := foldlM_literal hquote hkey
  rw [deliverString_key r hvalue] at hname
  cases hlearn : r.learn? m with
  | error e =>
    rw [hlearn] at hname
    show List.foldlM accept _ _ = _
    rw [(reads_blanks hbetween hbefore).foldlM_eq, List.foldlM_append, hname]
    rfl
  | ok t =>
    obtain rfl := learn?_ok hlearn
    rw [hlearn] at hname
    let use := m.field?.elim (.skipped []) ValueUse.member
    have hread : (r.goto place).Reads key (r.goto (.colon use)) := hname
    have hcolon : (r.goto (.colon use)).accept ':' = .ok (r.goto (.value use)) := rfl
    have hpart := (reads_blanks (r := r.goto (.value use)) rfl hbeforeValue).trans_completes
      ((completes_value r hvalue).blanks rfl hbehind)
    -- from its end to its begin: the colon, the key, and the blanks around them
    have hgap := reads_blanks (r := r.goto (.colon use)) rfl hbehindKey
    exact (reads_blanks hbetween hbefore).trans_completes
      (hread.trans_completes (hgap.trans_completes
        ((reads_singleton hcolon).trans_completes hpart)))

/-- Reading members comes to learning them, one after the other. -/
theorem leadsTo_members {members : List Member} {text : List Char}
    (h : WrittenMembers members text) {place : DocumentPlace} (hplace : BeforeKey place)
    (r : DocumentScan) : (r.goto place).LeadsTo text (members.foldlM learn? r) := by
  induction h generalizing place r with
  | @last m text hm =>
    have hone : [m].foldlM learn? r = r.learn? m := bind_pure (r.learn? m)
    rw [hone]
    exact leadsTo_member hplace r hm
  | @more m members first rest hm _ ih =>
    have hfirst := leadsTo_member hplace r hm
    rw [List.foldlM_cons]
    cases hlearn : r.learn? m with
    | error e =>
      rw [hlearn] at hfirst
      have hfails : first.foldlM accept (r.goto place) = .error e := hfirst
      show (first ++ ',' :: rest).foldlM accept _ = .error e
      rw [List.foldlM_append, hfails]
      rfl
    | ok t =>
      rw [hlearn] at hfirst
      have hcomma : (t.goto .afterMember).accept ',' = .ok (t.goto .nextKey) := rfl
      have hread := Completes.concat hfirst (c := ',') rfl hcomma
      have hrest := ih (Or.inr rfl) t
      show (r.goto place).LeadsTo (first ++ ',' :: rest) (members.foldlM learn? t)
      rw [List.append_cons]
      cases hall : members.foldlM learn? t with
      | error e =>
        rw [hall] at hrest
        exact (hread.foldlM_eq rest).trans hrest
      | ok u =>
        rw [hall] at hrest
        exact hread.trans_completes hrest

/-! ## Documents -/

/-- Behind its closing bracket a document may end in blanks, and has been read. -/
theorem finish_of_blanks (r : DocumentScan) {blanks : List Char} (hblanks : Blanks blanks) :
    (blanks.foldlM accept (r.goto .done) >>= finish) = .ok r.config := by
  have hread : blanks.foldlM accept (r.goto .done) = .ok (r.goto .done) :=
    reads_blanks rfl hblanks
  rw [hread]
  rfl

/-- Reading an object comes to learning its members. -/
theorem parse_object {members : List Member} {text : List Char}
    (h : WrittenObject members text) :
    Config.parse text = (members.foldlM learn? {}).map config := by
  cases h with
  | @empty before inside behind hbefore hinside hbehind =>
    have hopen : ({} : DocumentScan).accept '{' = .ok (({} : DocumentScan).goto .firstKey) := rfl
    have hclose : (({} : DocumentScan).goto .firstKey).accept '}'
        = .ok (({} : DocumentScan).goto .done) := rfl
    have hinside := (reads_blanks (r := ({} : DocumentScan).goto .firstKey) rfl hinside).trans
      (reads_singleton hclose)
    have hread := (reads_blanks (r := ({} : DocumentScan)) rfl hbefore).trans
      (Reads.cons hopen hinside)
    rw [Config.parse, List.append_cons inside, ← List.cons_append, ← List.append_assoc,
      hread.foldlM_eq]
    exact finish_of_blanks {} hbehind
  | @members _ before text behind hbefore hmembers hbehind =>
    have hopen : ({} : DocumentScan).accept '{' = .ok (({} : DocumentScan).goto .firstKey) := rfl
    have hbegin := (reads_blanks (r := ({} : DocumentScan)) rfl hbefore).trans
      (reads_singleton hopen)
    have hlead := leadsTo_members hmembers (Or.inl rfl) {}
    rw [Config.parse, List.append_cons before, hbegin.foldlM_eq]
    cases hall : members.foldlM learn? {} with
    | error e =>
      rw [hall] at hlead
      have hfails : text.foldlM accept (({} : DocumentScan).goto .firstKey) = .error e := hlead
      rw [List.foldlM_append, hfails]
      rfl
    | ok t =>
      rw [hall] at hlead
      have hclose : (t.goto .afterMember).accept '}' = .ok (t.goto .done) := rfl
      have hread := Completes.concat hlead (c := '}') rfl hclose
      rw [List.append_cons text, hread.foldlM_eq]
      exact finish_of_blanks t hbehind

/-- The elements of an array lead to where it may close. -/
theorem completes_elements {members : List Member} {text : List Char}
    (h : WrittenElements members text) :
    ∃ place, (({} : DocumentScan).goto .firstElement).Completes text
        ((members.foldl learn {}).goto place)
      ∧ (place = .firstElement ∨ ∃ f, place = .afterElement f) := by
  cases h with
  | none hblanks =>
    exact ⟨_, (reads_blanks (r := ({} : DocumentScan).goto .firstElement) rfl hblanks).completes,
      Or.inl rfl⟩
  | @one m before value behind hfield hbefore hvalue hbehind =>
    have hfirst := completes_element .firstElement {} hfield hvalue
    exact ⟨_, (reads_blanks (r := ({} : DocumentScan).goto .firstElement) rfl
      hbefore).trans_completes (hfirst.blanks rfl hbehind), Or.inr ⟨_, rfl⟩⟩
  | @two m m' before value behind before' value' behind' hfield hbefore hvalue hbehind hfield'
      hbefore' hvalue' hbehind' =>
    let t := ({} : DocumentScan).learn m
    let due := DocumentPlace.value (.element .segmentCapacity)
    have hcomma : (t.goto (.afterElement .timerThreadName)).accept ',' = .ok (t.goto due) := rfl
    have hfirst := ((completes_element .firstElement {} hfield hvalue).blanks rfl hbehind).concat
      (c := ',') rfl hcomma
    have hsecond := (reads_blanks (r := t.goto due) rfl hbefore').trans_completes
      ((completes_element (.value _) t hfield' hvalue').blanks rfl hbehind')
    have hall := (reads_blanks (r := ({} : DocumentScan).goto .firstElement) rfl
      hbefore).trans_completes (hfirst.trans_completes hsecond)
    refine ⟨.afterElement .segmentCapacity, ?_, Or.inr ⟨_, rfl⟩⟩
    show Completes _ _ ((t.learn m').goto _)
    simpa only [List.append_assoc, List.cons_append, List.nil_append] using hall

/-- Reading an array comes to learning its elements. -/
theorem parse_array {members : List Member} {text : List Char} (h : WrittenArray members text) :
    Config.parse text = .ok (members.foldl learn {}).config := by
  obtain @⟨before, text, behind, hbefore, helements, hbehind⟩ := h
  obtain ⟨place, hinside, hplace⟩ := completes_elements helements
  let t := members.foldl learn {}
  have hopen : ({} : DocumentScan).accept '[' = .ok (({} : DocumentScan).goto .firstElement) := rfl
  have hclose : (t.goto place).accept ']' = .ok (t.goto .done) := by
    rcases hplace with rfl | ⟨f, rfl⟩ <;> rfl
  have hread := (reads_blanks (r := ({} : DocumentScan)) rfl hbefore).trans
    (Reads.cons hopen (hinside.concat rfl hclose))
  rw [Config.parse, List.append_cons text, ← List.cons_append, ← List.append_assoc,
    hread.foldlM_eq]
  exact finish_of_blanks t hbehind

end DocumentScan

end StreamBuffer
