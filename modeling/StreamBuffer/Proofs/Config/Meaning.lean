/-
  StreamBuffer.Proofs.Config.Meaning

  What a config document means, for every document of the grammar.

  Members are learnt as long as their fields are new (`foldlM_learn?_of_nodup`), and the first
  field that comes again ends the reading (`foldlM_learn?_of_repeat`). A field keeps the
  member that gave it its value (`content_foldl_of_mem`), and has its default if none did
  (`describes_config`). With how documents are read, that is their meaning
  (`Config.parse_written`).
-/
import StreamBuffer.Proofs.Config.Members
import Mathlib.Data.List.Nodup
import Mathlib.Data.List.Induction

namespace StreamBuffer

/-! ## The meaning of members -/

/-- The fields that members give values, in their order. -/
def memberFields (members : List Member) : List ConfigField := members.filterMap Member.field?

/-- The config has for each field the value of its member, or the default if it has none. -/
structure Config.Describes (c : Config) (members : List Member) : Prop where
  name : ∀ s, .name s ∈ members → c.timerThreadName = s
  capacity : ∀ n, .capacity n ∈ members → c.segmentCapacity = n
  noName : (∀ s, .name s ∉ members) → c.timerThreadName = Config.timerThreadName {}
  noCapacity : (∀ n, .capacity n ∉ members) → c.segmentCapacity = Config.segmentCapacity {}

theorem memberFields_cons (m : Member) (members : List Member) :
    memberFields (m :: members) = (m.field?.toList ++ memberFields members) := by
  rw [memberFields, List.filterMap_cons]
  cases m.field? <;> rfl

/-- A list with a repetition has a first one. -/
theorem exists_first_repeat {fields : List ConfigField} (h : ¬ fields.Nodup) :
    ∃ before f after, fields = before ++ f :: after ∧ before.Nodup ∧ f ∈ before := by
  induction fields using List.reverseRecOn with
  | nil => exact absurd List.nodup_nil h
  | append_singleton fields f ih =>
    by_cases hnodup : fields.Nodup
    · refine ⟨fields, f, [], rfl, hnodup, ?_⟩
      by_contra hnew
      exact h (List.nodup_append.mpr ⟨hnodup, List.nodup_singleton f, fun g hg g' hg' hgg =>
        hnew (by rwa [← List.mem_singleton.mp hg', ← hgg])⟩)
    · obtain ⟨before, g, after, rfl, hbefore, hg⟩ := ih hnodup
      exact ⟨before, g, after ++ [f], by simp, hbefore, hg⟩

namespace DocumentScan

/-! ## Learning members -/

/-- The member that gives the field the value it has. -/
def content (r : DocumentScan) : ConfigField → Option Member
  | .timerThreadName => r.name.map .name
  | .segmentCapacity => r.capacity.map .capacity

theorem content_learn (r : DocumentScan) (m : Member) (f : ConfigField) :
    (r.learn m).content f = if m.field? = some f then some m else r.content f := by
  cases m <;> cases f <;> rfl

theorem isSet_eq (r : DocumentScan) (f : ConfigField) : r.isSet f = (r.content f).isSome := by
  cases f <;> simp [isSet, content]

/-- Learning a member gives its field a value, and no other field. -/
theorem isSet_learn (r : DocumentScan) (m : Member) (f : ConfigField) :
    (r.learn m).isSet f = true ↔ m.field? = some f ∨ r.isSet f = true := by
  rw [isSet_eq, isSet_eq, content_learn]
  split <;> simp [*]

theorem learn?_eq_ok {r : DocumentScan} {m : Member}
    (h : ∀ f, m.field? = some f → r.isSet f = false) : r.learn? m = .ok (r.learn m) := by
  unfold learn?
  split
  · rename_i f hf
    rw [h f hf]
    rfl
  · rfl

/-- Members are all learnt if no field comes twice, or has a value before. -/
theorem foldlM_learn?_of_nodup {members : List Member} {r : DocumentScan}
    (hnodup : (memberFields members).Nodup)
    (hnew : ∀ f ∈ memberFields members, r.isSet f = false) :
    members.foldlM learn? r = .ok (members.foldl learn r) := by
  induction members generalizing r with
  | nil => rfl
  | cons m members ih =>
    rw [memberFields_cons] at hnodup hnew
    have hfirst : r.learn? m = .ok (r.learn m) :=
      learn?_eq_ok fun f hf => hnew f (by simp [hf])
    obtain ⟨-, hrest, hapart⟩ := List.nodup_append.mp hnodup
    have hkept : ∀ f ∈ memberFields members, (r.learn m).isSet f = false := by
      intro f hf
      rw [Bool.eq_false_iff, ne_eq, isSet_learn, not_or]
      refine ⟨fun hm => hapart f (by simp [hm]) f hf rfl, ?_⟩
      rw [hnew f (List.mem_append_right _ hf)]
      exact Bool.false_ne_true
    rw [List.foldlM_cons, hfirst]
    exact ih hrest hkept

/-- The first field to come again ends the learning. -/
theorem foldlM_learn?_of_repeat {members : List Member} {r : DocumentScan}
    {before after : List ConfigField} {f : ConfigField}
    (hfields : memberFields members = before ++ f :: after) (hnodup : before.Nodup)
    (hnew : ∀ g ∈ before, r.isSet g = false) (hrepeat : f ∈ before ∨ r.isSet f = true) :
    members.foldlM learn? r = .error (.duplicateField f) := by
  induction members generalizing r before with
  | nil => cases before <;> cases hfields
  | cons m members ih =>
    rw [List.foldlM_cons]
    cases hm : m.field? with
    | none =>
      have hfirst : r.learn? m = .ok (r.learn m) := learn?_eq_ok (by simp [hm])
      have hsame : ∀ g, (r.learn m).isSet g = r.isSet g := by
        intro g
        rw [Bool.eq_iff_iff, isSet_learn, hm]
        simp
      rw [memberFields_cons, hm] at hfields
      rw [hfirst]
      exact ih hfields hnodup (fun g hg => (hsame g).trans (hnew g hg)) (by rwa [hsame])
    | some g =>
      rw [memberFields_cons, hm] at hfields
      cases before with
      | nil =>
        -- this is the field that comes again
        obtain rfl : g = f := (List.cons.inj hfields).1
        have hset : r.isSet g = true := hrepeat.resolve_left List.not_mem_nil
        have hfirst : r.learn? m = .error (.duplicateField g) := by
          simp only [learn?, hm, hset, if_true]
        rw [hfirst]
        rfl
      | cons g' before =>
        obtain ⟨rfl, hrest⟩ : g = g' ∧ _ := List.cons.inj hfields
        obtain ⟨hg, hbefore⟩ := List.nodup_cons.mp hnodup
        have hfirst : r.learn? m = .ok (r.learn m) := by
          refine learn?_eq_ok fun h hh => ?_
          rw [hm] at hh
          rw [← Option.some.inj hh]
          exact hnew g List.mem_cons_self
        have hkept : ∀ h ∈ before, (r.learn m).isSet h = false := by
          intro h hh
          rw [Bool.eq_false_iff, ne_eq, isSet_learn, hm, Option.some.injEq, not_or]
          refine ⟨fun hgh => hg (hgh ▸ hh), ?_⟩
          rw [hnew h (List.mem_cons_of_mem _ hh)]
          exact Bool.false_ne_true
        rw [hfirst]
        refine ih hrest hbefore hkept ?_
        rw [isSet_learn, hm, Option.some.injEq]
        rcases hrepeat with hmem | hset
        · rcases List.mem_cons.mp hmem with rfl | hmem
          · exact Or.inr (Or.inl rfl)
          · exact Or.inl hmem
        · exact Or.inr (Or.inr hset)

/-! ## The values of the fields -/

/-- A field without a member keeps what it had. -/
theorem content_foldl_of_not_mem {members : List Member} {f : ConfigField}
    (h : ∀ m ∈ members, m.field? ≠ some f) (r : DocumentScan) :
    (members.foldl learn r).content f = r.content f := by
  induction members generalizing r with
  | nil => rfl
  | cons m members ih =>
    rw [List.foldl_cons, ih (fun m' hm' => h m' (List.mem_cons_of_mem m hm')), content_learn,
      if_neg (h m List.mem_cons_self)]

theorem isSet_foldl_of_not_mem {members : List Member} {f : ConfigField}
    (h : f ∉ memberFields members) (r : DocumentScan) :
    (members.foldl learn r).isSet f = r.isSet f := by
  have hnone : ∀ m ∈ members, m.field? ≠ some f := fun m hm hf =>
    h (List.mem_filterMap.mpr ⟨m, hm, hf⟩)
  rw [isSet_eq, isSet_eq, content_foldl_of_not_mem hnone]

/-- A field has the value of its member, if it has one member. -/
theorem content_foldl_of_mem {members : List Member} (hnodup : (memberFields members).Nodup)
    {m : Member} (hm : m ∈ members) {f : ConfigField} (hf : m.field? = some f)
    (r : DocumentScan) : (members.foldl learn r).content f = some m := by
  induction members generalizing r with
  | nil => cases hm
  | cons m' members ih =>
    rw [memberFields_cons] at hnodup
    obtain ⟨-, hrest, hapart⟩ := List.nodup_append.mp hnodup
    rw [List.foldl_cons]
    rcases List.mem_cons.mp hm with rfl | hm
    · have hothers : ∀ m' ∈ members, m'.field? ≠ some f := fun m' hm' hf' =>
        hapart f (by simp [hf]) f (List.mem_filterMap.mpr ⟨m', hm', hf'⟩) rfl
      rw [content_foldl_of_not_mem hothers, content_learn, if_pos hf]
    · exact ih hrest hm (r.learn m')

/-- What was learnt of members is the config that they describe. -/
theorem describes_config {members : List Member} (hnodup : (memberFields members).Nodup) :
    (members.foldl learn {}).config.Describes members := by
  let t := members.foldl learn {}
  have hdefault : ∀ f, (∀ m ∈ members, m.field? ≠ some f) → t.content f = none := by
    intro f h
    rw [content_foldl_of_not_mem h]
    cases f <;> rfl
  refine ⟨fun s hs => ?_, fun n hn => ?_, fun h => ?_, fun h => ?_⟩
  · obtain ⟨s', hname, hs'⟩ := Option.map_eq_some_iff.mp (content_foldl_of_mem hnodup hs rfl {})
    obtain rfl := Member.name.inj hs'
    simp only [config, hname, Option.getD_some]
  · obtain ⟨n', hcapacity, hn'⟩ :=
      Option.map_eq_some_iff.mp (content_foldl_of_mem hnodup hn rfl {})
    obtain rfl := Member.capacity.inj hn'
    simp only [config, hcapacity, Option.getD_some]
  · have hnone : t.name = none := Option.map_eq_none_iff.mp (hdefault .timerThreadName (by
      rintro (s | n | key) hm hf
      · exact h s hm
      · cases hf
      · cases hf))
    simp only [config, t, hnone, Option.getD_none]
  · have hnone : t.capacity = none := Option.map_eq_none_iff.mp (hdefault .segmentCapacity (by
      rintro (s | n | key) hm hf
      · cases hf
      · exact h n hm
      · cases hf))
    simp only [config, t, hnone, Option.getD_none]

/-- The elements of an array have fields of their own. -/
theorem nodup_of_writtenElements {members : List Member} {text : List Char}
    (h : WrittenElements members text) : (memberFields members).Nodup := by
  cases h with
  | none => exact List.nodup_nil
  | one hfield =>
    rw [memberFields_cons, hfield]
    decide
  | two hfield _ _ _ hfield' =>
    rw [memberFields_cons, memberFields_cons, hfield, hfield']
    decide

end DocumentScan

namespace Config

open DocumentScan

/-- The meaning of every document of the grammar. An object is the config that its members
    describe if no field comes twice, else the failure on the field that comes again first;
    an array is the config that the object with its fields is. -/
theorem parse_written (members : List Member) (text : List Char) :
    (WrittenObject members text →
        ((memberFields members).Nodup → ∃ c, parse text = .ok c ∧ c.Describes members)
          ∧ (¬ (memberFields members).Nodup → ∃ before f after,
              memberFields members = before ++ f :: after ∧ before.Nodup ∧ f ∈ before
                ∧ parse text = .error (.duplicateField f)))
      ∧ (WrittenArray members text → ∃ c, parse text = .ok c ∧ c.Describes members
          ∧ ∀ object, WrittenObject members object → parse object = .ok c) := by
  have hok : (memberFields members).Nodup → ∀ object, WrittenObject members object →
      parse object = .ok (members.foldl learn {}).config := by
    intro hnodup object hobject
    have hnew : ∀ f ∈ memberFields members, ({} : DocumentScan).isSet f = false := by
      intro f _
      cases f <;> rfl
    rw [parse_object hobject, foldlM_learn?_of_nodup hnodup hnew]
    rfl
  refine ⟨fun hobject => ⟨fun hnodup => ?_, fun hrepeat => ?_⟩, fun harray => ?_⟩
  · exact ⟨_, hok hnodup text hobject, describes_config hnodup⟩
  · obtain ⟨before, f, after, hfields, hbefore, hf⟩ := exists_first_repeat hrepeat
    have hnew : ∀ g ∈ before, ({} : DocumentScan).isSet g = false := by
      intro g _
      cases g <;> rfl
    refine ⟨before, f, after, hfields, hbefore, hf, ?_⟩
    rw [parse_object hobject, foldlM_learn?_of_repeat hfields hbefore hnew (Or.inl hf)]
    rfl
  · obtain ⟨_, helements, _⟩ := id harray
    have hnodup := nodup_of_writtenElements helements
    exact ⟨_, parse_array harray, describes_config hnodup, hok hnodup⟩

/-- A document with an unknown member of half a pair and a large number, and a key with a
    code unit in it; a document with a field twice; and an array with a name beyond 16 bits. -/
theorem parse_written_spelled :
    let spelled :=
      "\x7b\"x\":[\x7b\"\\uD8aF\":-1E+999\x7d] ,\"\\u0073egment_capacity\":7\x7d\n".toList
    let twice := "\x7b\"segment_capacity\":1,\"segment_capacity\":2\x7d".toList
    let array := "[\"\\uD834\\udd1e\"]".toList
    (∃ c, parse spelled = .ok c ∧ c.Describes [.other "x", .capacity 7])
      ∧ (∃ before f after, memberFields [.capacity 1, .capacity 2] = before ++ f :: after
          ∧ before.Nodup ∧ f ∈ before ∧ parse twice = .error (.duplicateField f))
      ∧ ∃ c, parse array = .ok c ∧ c.Describes [.name "𝄞"]
        ∧ ∀ object, WrittenObject [.name "𝄞"] object → parse object = .ok c := by
  intro spelled twice array
  have hspelled : WrittenObject [.other "x", .capacity 7] spelled := by
    have hexponent : IsExponent "E+999".toList :=
      @IsExponent.digits 'E' ['+'] ['9', '9', '9'] (Or.inr rfl) (Or.inr (Or.inl rfl)) (by decide)
    have hnumber : IsNumber "-1E+999".toList :=
      @IsNumber.mk ['-'] ['1'] [] _ (Or.inr rfl) (.digits (by decide) rfl nofun) .none hexponent
    have hhalf : IsLooseLiteral "\"\\uD8aF\"".toList :=
      ⟨_, @LooseText.unit ['D', '8', 'a', 'F'] [] _ rfl .nil, rfl⟩
    have hinner : IsJson (.item .object) "\"\\uD8aF\":-1E+999".toList :=
      .member blanks_nil hhalf blanks_nil blanks_nil (.number hnumber) blanks_nil
    have hvalue : IsJson .value "[\x7b\"\\uD8aF\":-1E+999\x7d]".toList :=
      .bracketed .array (.last (.element blanks_nil (.bracketed .object (.last hinner)) blanks_nil))
    have hkey : IsLiteralOf "segment_capacity" "\"\\u0073egment_capacity\"".toList :=
      ⟨_, .cons (@SpelledChar.unit ['0', '0', '7', '3'] _ rfl)
        (spelledText_flatMap_literalChar "egment_capacity".toList), rfl⟩
    have hspace : Blanks [' '] := by decide
    have hline : Blanks ['\n'] := by decide
    have hother : (Member.other "x").Written "\"x\":[\x7b\"\\uD8aF\":-1E+999\x7d] ".toList :=
      @Member.Written.mk (.other "x") _ _ _ _ _ _ blanks_nil (isLiteralOf_stringLiteral "x")
        blanks_nil blanks_nil (.other (fun f => by cases f <;> decide) hvalue) hspace
    have hcapacity : (Member.capacity 7).Written "\"\\u0073egment_capacity\":7".toList :=
      @Member.Written.mk (.capacity 7) _ _ _ _ _ _ blanks_nil hkey blanks_nil blanks_nil
        (.capacity 7) blanks_nil
    exact .members blanks_nil (.more hother (.last hcapacity)) hline
  have htwice : WrittenObject [.capacity 1, .capacity 2] twice := by
    have hone : ∀ n, (Member.capacity n).Written _ := fun n =>
      .mk blanks_nil (isLiteralOf_stringLiteral _) blanks_nil blanks_nil (.capacity n) blanks_nil
    exact .members blanks_nil (.more (hone 1) (.last (hone 2))) blanks_nil
  have harray : WrittenArray [.name "𝄞"] array := by
    have hpair : IsLiteralOf "𝄞" "\"\\uD834\\udd1e\"".toList :=
      ⟨_, .cons (@SpelledChar.pair ['D', '8', '3', '4'] ['d', 'd', '1', 'e'] '𝄞' (by decide)
        rfl rfl) .nil, rfl⟩
    exact .mk blanks_nil (.one rfl blanks_nil (.name hpair) blanks_nil) blanks_nil
  exact ⟨((parse_written _ spelled).1 hspelled).1 (by decide),
    ((parse_written _ twice).1 htwice).2 (by decide), (parse_written _ array).2 harray⟩

end Config

end StreamBuffer
