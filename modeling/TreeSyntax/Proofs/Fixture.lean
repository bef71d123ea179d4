import TreeSyntax.Load.Fixture
import TreeSyntax.Proofs.KeyOrder
import TreeSyntax.Proofs.Streaming

/-!
# Fixtures in files

A fixture is loaded from a file exactly if the value in the file describes one, in whatever order
its keys come.  The file is read against the shape of a fixture as it goes, and yet the outcome is
the same as if the whole value were read first.
-/

namespace TreeSyntax

open Json

/-! ## Parts that no reordering changes -/

namespace Json

def Rigid (value : Json) : Prop :=
  ∀ other, Reordered other value → other = value

theorem rigid_null : Rigid .null :=
  fun _ h => by cases h; rfl

theorem rigid_bool (value : Bool) : Rigid (.bool value) :=
  fun _ h => by cases h; rfl

theorem rigid_string (text : String) : Rigid (.string text) :=
  fun _ h => by cases h; rfl

private theorem rigid_array {items : List Json} (h : ∀ item ∈ items, item.Rigid) :
    Rigid (.array items) := by
  rintro _ ⟨⟩
  next others hothers =>
    rw [reorderedItems_iff] at hothers
    congr 1
    induction hothers with
    | nil => rfl
    | cons hitem _ ih =>
        obtain ⟨hrigid, hrest⟩ := List.forall_mem_cons.mp h
        rw [hrigid _ hitem, ih hrest]

private theorem rigid_texts (texts : List String) : Rigid (.array (texts.map .string)) := by
  refine rigid_array fun item hitem => ?_
  obtain ⟨text, -, rfl⟩ := List.mem_map.mp hitem
  exact rigid_string text

theorem Rigid.eq_some_iff {value : Json} (h : value.Rigid) {first second : Option Json}
    (hsame : Option.Rel Reordered first second) : first = some value ↔ second = some value := by
  cases hsame with
  | none => exact Iff.rfl
  | some hvalue =>
      rw [Option.some.injEq, Option.some.injEq]
      constructor
      · rintro rfl
        exact h _ (Reordered.symm _ hvalue)
      · rintro rfl
        exact h _ hvalue

end Json

/-! ## Outcomes in texts -/

namespace Outcome

theorem fieldsStream (nesting : Nat) : record.FieldsStream (nesting + 1) fun _ _ => True := by
  simp only [RecordShape.FieldsStream, record, List.forall_mem_cons]
  exact ⟨Shape.streams_bool _, (Shape.streams_text _ _).refine _, (Shape.streams_text _ _).list,
    List.forall_mem_nil _⟩

/-- Outcomes are read from texts as from values, if no key comes twice. -/
theorem streams (nesting : Nat) : shape.Streams (nesting + 2) fun value =>
    ∀ members, value = .object members → (Entries.names members).Nodup := by
  refine RecordShape.streams (fieldsStream nesting) separate ?_
  simp only [record, List.forall_mem_cons]
  exact ⟨rfl, rfl, rfl, List.forall_mem_nil _⟩

section

variable {members members' : Members} {outcome : Outcome}

private theorem ofJson_object_iff_of_reordered (hnodup : (Entries.names members).Nodup)
    (hnodup' : (Entries.names members').Nodup)
    (h : ∀ key, Option.Rel Reordered (Entries.find? members key) (Entries.find? members' key)) :
    ofJson (.object members) = .ok outcome ↔ ofJson (.object members') = .ok outcome := by
  rw [ofJson_object_eq_ok_iff hnodup, ofJson_object_eq_ok_iff hnodup', sameValues_toMembers_iff,
    sameValues_toMembers_iff, (rigid_bool _).eq_some_iff (h "isValid"),
    (rigid_string _).eq_some_iff (h "errorCode"), (rigid_texts _).eq_some_iff (h "errorPath")]

/-- No order of keys tells two wire forms apart. -/
theorem ofJson_iff_of_reordered {first second : Json} (hwell : first.WellFormed)
    (hwell' : second.WellFormed) (h : first.Reordered second) :
    ofJson first = .ok outcome ↔ ofJson second = .ok outcome := by
  cases first with
  | object members =>
      cases second with
      | object members' =>
          exact ofJson_object_iff_of_reordered hwell.1 hwell'.1 (h.find? hwell.1)
      | _ => cases h
  | array items =>
      cases second with
      | array items' =>
          have hitems : List.Forall₂ Reordered items items' := by
            cases h with
            | array hitems => exact reorderedItems_iff.mp hitems
          by_cases hlength : items.length = 3
          · obtain ⟨isValid, errorCode, errorPath, rfl⟩ := List.length_eq_three.mp hlength
            simp only [List.forall₂_cons_left_iff, List.forall₂_nil_left_iff] at hitems
            obtain ⟨_, _, hvalid, ⟨_, _, hcode, ⟨_, _, hpath, rfl, rfl⟩, rfl⟩, rfl⟩ := hitems
            rw [ofJson_array, ofJson_array]
            refine ofJson_object_iff_of_reordered ?_ ?_ fun key =>
              (ReorderedMembers.cons hvalid (.cons hcode (.cons hpath .nil))).find? key
            · simp
            · simp
          · have hlength' : items'.length ≠ 3 := hitems.length_eq ▸ hlength
            exact iff_of_false (mt length_of_ofJson_array hlength)
              (mt length_of_ofJson_array hlength')
      | _ => cases h
  | _ =>
      cases h
      exact Iff.rfl

end

end Outcome

/-! ## Fixtures in texts -/

namespace Fixture

def Allowed (name : String) (value : Json) : Prop :=
  name = "expect" → ∀ members, value = .object members → (Entries.names members).Nodup

theorem fieldsStream : record.FieldsStream (nestingLimit - 1) Allowed := by
  have hlibraries := (Shape.streams_map_any (nestingLimit - 2)).orNull
  have hexpect := Outcome.streams (nestingLimit - 3)
  simp only [RecordShape.FieldsStream, record, List.forall_mem_cons]
  exact ⟨(Shape.streams_text _ _).mono fun _ _ => trivial,
    (Shape.streams_any _).mono fun _ _ => trivial, hlibraries.mono fun _ _ => trivial,
    hexpect.mono fun _ hvalue => hvalue rfl, List.forall_mem_nil _⟩

theorem separate : record.Separate where
  names := by decide
  own := by simp [record]
  others := by simp [record]

theorem sees_fields : record.Sees "description" (Shape.text "a string") Draft.description ∧
    record.Sees "input" (Shape.any (nestingLimit - 1)) Draft.input ∧
    record.Sees "libraries" (Shape.any (nestingLimit - 2)).map.orNull Draft.libraries ∧
    record.Sees "expect" Outcome.shape Draft.expect :=
  ⟨separate.sees (.head _), separate.sees (.tail _ (.head _)),
    separate.sees (.tail _ (.tail _ (.head _))),
    separate.sees (.tail _ (.tail _ (.tail _ (.head _))))⟩

theorem isFilled_start : ∀ field ∈ record.fields, field.isFilled record.start = false := by
  simp only [record, List.forall_mem_cons]
  exact ⟨rfl, rfl, rfl, rfl, List.forall_mem_nil _⟩

/-! ## Fixtures in values -/

theorem finish_eq_ok_iff {draft : Draft} {fixture : Fixture} :
    draft.finish = .ok fixture ↔ draft.description.getD "" = fixture.description ∧
      draft.input = some fixture.input ∧ draft.libraries.getD none = fixture.libraries ∧
      draft.expect = some fixture.expect := by
  obtain ⟨description, input, libraries, expect⟩ := draft
  obtain ⟨description', input', libraries', expect'⟩ := fixture
  cases input <;> cases expect <;> simp [Draft.finish]

theorem ofValue_libraries_eq_ok_iff {nesting : Nat} {value : Json} {libraries : Option Members} :
    (Shape.any nesting).map.orNull.ofValue value = .ok libraries ↔
      (value = .null ∧ libraries = none) ∨
        ∃ members, value = .object members ∧ libraries = some (Entries.merge members) := by
  cases value with
  | object members =>
      have hvalue : (Shape.any nesting).map.orNull.ofValue (.object members) =
          .ok (some (Entries.merge members)) := by
        change ((Shape.any nesting).map.ofValue (.object members)).map some = _
        rw [Shape.ofValue_map_any]
        rfl
      simp [hvalue, eq_comm]
  | null => simp [Shape.orNull, eq_comm]
  | _ => simp [Shape.orNull, Shape.map, Except.map]

def keys : List String :=
  ["description", "input", "libraries", "expect"]

structure Described (members : Members) (fixture : Fixture) : Prop where
  known : ∀ name ∈ Entries.names members, name ∈ keys
  description : (Entries.find? members "description" = none ∧ fixture.description = "") ∨
    Entries.find? members "description" = some (.string fixture.description)
  input : Entries.find? members "input" = some fixture.input
  libraries : ((Entries.find? members "libraries" = none ∨
      Entries.find? members "libraries" = some .null) ∧ fixture.libraries = none) ∨
    ∃ libraries, Entries.find? members "libraries" = some (.object libraries) ∧
      fixture.libraries = some libraries
  expect : ∃ value, Entries.find? members "expect" = some value ∧
    Outcome.ofJson value = .ok fixture.expect

theorem mem_keys_iff {name : String} : name ∈ keys ↔ (record.field? name).isSome = true := by
  have hnames : record.fields.map Field.name = keys := rfl
  rw [RecordShape.field?, List.find?_isSome, ← hnames, List.mem_map]
  simp only [beq_iff_eq]

section

variable {members : Members} {fixture : Fixture}

private theorem ofMembers_eq_ok_iff_foldlM : record.ofMembers members = .ok fixture ↔
    ∃ draft, members.foldlM record.takeMember Draft.empty = .ok draft ∧
      draft.finish = .ok fixture := by
  rw [RecordShape.ofMembers_eq_bind, bind_eq_ok_iff]
  rfl

private theorem described_of_foldlM (hwell : (Json.object members).WellFormed) {draft : Draft}
    (htaken : members.foldlM record.takeMember Draft.empty = .ok draft)
    (hfinish : draft.finish = .ok fixture) : Described members fixture := by
  obtain ⟨hdescription, hinput, hlibraries, hexpect⟩ := finish_eq_ok_iff.mp hfinish
  obtain ⟨hseesDescription, hseesInput, hseesLibraries, hseesExpect⟩ := sees_fields
  have hnodup := hwell.1
  refine ⟨fun name hname => ?_, ?_, ?_, ?_, ?_⟩
  · exact mem_keys_iff.mpr (RecordShape.known_of_foldlM_takeMember rfl htaken name hname)
  · rcases hseesDescription.view_cases hnodup rfl htaken with
      ⟨hfound, hview⟩ | ⟨value, text, hfound, hvalue, hview⟩
    · exact .inl ⟨hfound, by rw [← hdescription, hview]; rfl⟩
    · rw [ofValue_text_eq_ok_iff.mp hvalue] at hfound
      exact .inr (by rw [hfound, ← hdescription, hview]; rfl)
  · obtain ⟨value, hfound, hvalue⟩ := (hseesInput.view_eq_some_iff hnodup rfl htaken).mp hinput
    rw [hfound, Except.ok.inj hvalue]
  · rcases hseesLibraries.view_cases hnodup rfl htaken with
      ⟨hfound, hview⟩ | ⟨value, libraries, hfound, hvalue, hview⟩
    · exact .inl ⟨.inl hfound, by rw [← hlibraries, hview]; rfl⟩
    · rw [hview] at hlibraries
      rcases ofValue_libraries_eq_ok_iff.mp hvalue with ⟨rfl, rfl⟩ | ⟨inner, rfl, rfl⟩
      · exact .inl ⟨.inr hfound, hlibraries.symm⟩
      · have hinner : (Entries.names inner).Nodup := (hwell.find? hfound).1
        rw [Entries.merge_of_nodup hinner] at hlibraries
        exact .inr ⟨inner, hfound, hlibraries.symm⟩
  · exact (hseesExpect.view_eq_some_iff hnodup rfl htaken).mp hexpect

private theorem Described.exists_foldlM (h : Described members fixture)
    (hnodup : (Entries.names members).Nodup) :
    ∃ draft, members.foldlM record.takeMember Draft.empty = .ok draft := by
  obtain ⟨hseesDescription, hseesInput, hseesLibraries, hseesExpect⟩ := sees_fields
  apply RecordShape.exists_foldlM_takeMember
  rintro ⟨name, value⟩ hmem state
  have hfound := (Entries.find?_eq_some_iff_mem hnodup).mpr hmem
  have hname := h.known name (List.mem_map_of_mem hmem)
  simp only [keys, List.mem_cons, List.not_mem_nil, or_false] at hname
  rcases hname with rfl | rfl | rfl | rfl
  · rcases h.description with ⟨hnone, -⟩ | htext
    · cases hnone.symm.trans hfound
    · obtain rfl := Option.some.inj (htext.symm.trans hfound)
      exact hseesDescription.exists_takeMember (ofValue_text_eq_ok_iff.mpr rfl) state
  · have hvalue : (Shape.any (nestingLimit - 1)).ofValue value = .ok value := rfl
    exact hseesInput.exists_takeMember hvalue state
  · rcases h.libraries with ⟨hnone | hnull, -⟩ | ⟨libraries, hobject, -⟩
    · cases hnone.symm.trans hfound
    · obtain rfl := Option.some.inj (hnull.symm.trans hfound)
      exact hseesLibraries.exists_takeMember (ofValue_libraries_eq_ok_iff.mpr (.inl ⟨rfl, rfl⟩))
        state
    · obtain rfl := Option.some.inj (hobject.symm.trans hfound)
      exact hseesLibraries.exists_takeMember
        (ofValue_libraries_eq_ok_iff.mpr (.inr ⟨libraries, rfl, rfl⟩)) state
  · obtain ⟨outcome, houtcome, hvalue⟩ := h.expect
    obtain rfl := Option.some.inj (houtcome.symm.trans hfound)
    exact hseesExpect.exists_takeMember hvalue state

theorem Described.description_eq (h : Described members fixture) : fixture.description =
    ((Entries.find? members "description").bind text?).getD "" := by
  rcases h.description with ⟨hnone, hempty⟩ | htext
  · rw [hnone, hempty]
    rfl
  · rw [htext]
    rfl

theorem Described.libraries_eq (h : Described members fixture) :
    fixture.libraries = (Entries.find? members "libraries").bind members? := by
  rcases h.libraries with ⟨hnone | hnull, hgiven⟩ | ⟨libraries, hobject, hgiven⟩
  · rw [hnone, hgiven]
    rfl
  · rw [hnull, hgiven]
    rfl
  · rw [hobject, hgiven]
    rfl

/-- A fixture is known from what describes it. -/
theorem Described.unique {fixture' : Fixture} (h : Described members fixture)
    (h' : Described members fixture') : fixture = fixture' := by
  have hdescription : fixture.description = fixture'.description :=
    h.description_eq.trans h'.description_eq.symm
  have hinput : fixture.input = fixture'.input :=
    Option.some.inj (h.input.symm.trans h'.input)
  have hlibraries : fixture.libraries = fixture'.libraries :=
    h.libraries_eq.trans h'.libraries_eq.symm
  have hexpect : fixture.expect = fixture'.expect := by
    obtain ⟨value, hfound, houtcome⟩ := h.expect
    obtain ⟨value', hfound', houtcome'⟩ := h'.expect
    obtain rfl := Option.some.inj (hfound.symm.trans hfound')
    exact Except.ok.inj (houtcome.symm.trans houtcome')
  cases fixture
  cases fixture'
  simp_all

theorem ofMembers_eq_ok_iff (hwell : (Json.object members).WellFormed) :
    record.ofMembers members = .ok fixture ↔ Described members fixture := by
  rw [ofMembers_eq_ok_iff_foldlM]
  constructor
  · rintro ⟨draft, htaken, hfinish⟩
    exact described_of_foldlM hwell htaken hfinish
  · intro h
    obtain ⟨draft, htaken⟩ := h.exists_foldlM hwell.1
    obtain ⟨-, hseesInput, -, hseesExpect⟩ := sees_fields
    have hinput := (hseesInput.view_eq_some_iff hwell.1 rfl htaken).mpr ⟨_, h.input, rfl⟩
    have hexpect := (hseesExpect.view_eq_some_iff hwell.1 rfl htaken).mpr h.expect
    obtain ⟨fixture', hfinish⟩ : ∃ fixture', draft.finish = .ok fixture' :=
      ⟨⟨draft.description.getD "", fixture.input, draft.libraries.getD none, fixture.expect⟩,
        finish_eq_ok_iff.mpr ⟨rfl, hinput, rfl, hexpect⟩⟩
    obtain rfl := h.unique (described_of_foldlM hwell htaken hfinish)
    exact ⟨draft, htaken, hfinish⟩

end

@[mk_iff]
structure Acceptable (members : Members) : Prop where
  known : ∀ name ∈ Entries.names members, name ∈ keys
  description : Entries.find? members "description" = none ∨
    ∃ text, Entries.find? members "description" = some (.string text)
  input : ∃ input, Entries.find? members "input" = some input
  libraries : Entries.find? members "libraries" = none ∨
    Entries.find? members "libraries" = some .null ∨
    ∃ libraries, Entries.find? members "libraries" = some (.object libraries)
  expect : ∃ value, Entries.find? members "expect" = some value ∧
    ∃ outcome, Outcome.ofJson value = .ok outcome

theorem exists_described_iff {members : Members} :
    (∃ fixture, Described members fixture) ↔ Acceptable members := by
  constructor
  · rintro ⟨fixture, h⟩
    refine ⟨h.known, ?_, ⟨_, h.input⟩, ?_, ?_⟩
    · rcases h.description with ⟨hnone, -⟩ | htext
      · exact .inl hnone
      · exact .inr ⟨_, htext⟩
    · rcases h.libraries with ⟨hnone | hnull, -⟩ | ⟨libraries, hobject, -⟩
      · exact .inl hnone
      · exact .inr (.inl hnull)
      · exact .inr (.inr ⟨libraries, hobject⟩)
    · obtain ⟨value, hfound, houtcome⟩ := h.expect
      exact ⟨value, hfound, _, houtcome⟩
  · rintro ⟨hknown, hdescription, ⟨input, hinput⟩, hlibraries, value, hfound, outcome, houtcome⟩
    obtain ⟨text, htext⟩ : ∃ text : String,
        (Entries.find? members "description" = none ∧ text = "") ∨
          Entries.find? members "description" = some (.string text) := by
      rcases hdescription with hnone | ⟨text, htext⟩
      · exact ⟨"", .inl ⟨hnone, rfl⟩⟩
      · exact ⟨text, .inr htext⟩
    obtain ⟨given, hgiven⟩ : ∃ given : Option Libraries,
        ((Entries.find? members "libraries" = none ∨
            Entries.find? members "libraries" = some .null) ∧ given = none) ∨
          ∃ libraries, Entries.find? members "libraries" = some (.object libraries) ∧
            given = some libraries := by
      rcases hlibraries with hnone | hnull | ⟨libraries, hobject⟩
      · exact ⟨none, .inl ⟨.inl hnone, rfl⟩⟩
      · exact ⟨none, .inl ⟨.inr hnull, rfl⟩⟩
      · exact ⟨some libraries, .inr ⟨libraries, hobject, rfl⟩⟩
    exact ⟨⟨text, input, given, outcome⟩, hknown, htext, hinput, hgiven, value, hfound, houtcome⟩

/-! ## The order of keys -/

/-- Fixtures that differ only in the order of keys inside their values. -/
structure SameUpToOrder (fixture fixture' : Fixture) : Prop where
  description : fixture.description = fixture'.description
  input : fixture.input.Reordered fixture'.input
  libraries : Option.Rel (fun libraries libraries' =>
    (Json.object libraries).Reordered (.object libraries')) fixture.libraries fixture'.libraries
  expect : fixture.expect = fixture'.expect

section

variable {members members' : Members} {fixture fixture' : Fixture}

theorem none_iff_of_rel {first second : Option Json} (h : Option.Rel Reordered first second) :
    first = none ↔ second = none := by
  cases h <;> simp

private theorem cases_of_rel {first second : Option Json} (h : Option.Rel Reordered first second) :
    (first = none ∧ second = none) ∨
      ∃ value value', first = some value ∧ second = some value' ∧ value.Reordered value' := by
  cases h with
  | none => exact .inl ⟨rfl, rfl⟩
  | some hvalue => exact .inr ⟨_, _, rfl, rfl, hvalue⟩

private theorem object_iff_of_rel {first second : Option Json}
    (h : Option.Rel Reordered first second) :
    (∃ members, first = some (.object members)) ↔ ∃ members, second = some (.object members) := by
  cases h with
  | none => simp
  | some hvalue => cases hvalue <;> simp

theorem text?_bind_eq {first second : Option Json} (h : Option.Rel Reordered first second) :
    first.bind text? = second.bind text? := by
  cases h with
  | none => rfl
  | some hvalue => exact hvalue.text?_eq

private theorem members?_bind_rel {first second : Option Json}
    (h : Option.Rel Reordered first second) :
    Option.Rel (fun members members' => (Json.object members).Reordered (.object members'))
      (first.bind members?) (second.bind members?) := by
  cases h with
  | none => exact .none
  | some hvalue =>
      cases hvalue with
      | object hperm hmembers => exact .some (.object hperm hmembers)
      | _ => exact .none

theorem Described.perm (h : Described members fixture) (hperm : members.Perm members')
    (hnodup : (Entries.names members).Nodup) : Described members' fixture := by
  have hfind := Entries.find?_perm hperm hnodup
  have hknown : ∀ name ∈ Entries.names members', name ∈ keys := fun name hname =>
    h.known name ((hperm.map Prod.fst).mem_iff.mpr hname)
  have hdescription := h.description
  have hinput := h.input
  have hlibraries := h.libraries
  have hexpect := h.expect
  rw [hfind] at hdescription hinput
  simp only [hfind] at hlibraries hexpect
  exact ⟨hknown, hdescription, hinput, hlibraries, hexpect⟩

theorem Described.reordered (h : Described members fixture) (h' : Described members' fixture')
    (hwell : (Json.object members).WellFormed) (hwell' : (Json.object members').WellFormed)
    (hsame : (Json.object members).Reordered (.object members')) :
    SameUpToOrder fixture fixture' := by
  have hfind := hsame.find? hwell.1
  refine ⟨?_, ?_, ?_, ?_⟩
  · rw [h.description_eq, h'.description_eq, text?_bind_eq (hfind _)]
  · have hinput := hfind "input"
    rw [h.input, h'.input] at hinput
    cases hinput with
    | some hinput => exact hinput
  · rw [h.libraries_eq, h'.libraries_eq]
    exact members?_bind_rel (hfind _)
  · obtain ⟨value, hfound, houtcome⟩ := h.expect
    obtain ⟨value', hfound', houtcome'⟩ := h'.expect
    have hvalue := hfind "expect"
    rw [hfound, hfound'] at hvalue
    cases hvalue with
    | some hvalue =>
        rw [Outcome.ofJson_iff_of_reordered (hwell.find? hfound) (hwell'.find? hfound') hvalue]
          at houtcome
        exact Except.ok.inj (houtcome.symm.trans houtcome')

theorem acceptable_iff_of_reordered (hwell : (Json.object members).WellFormed)
    (hwell' : (Json.object members').WellFormed)
    (hsame : (Json.object members).Reordered (.object members')) :
    Acceptable members ↔ Acceptable members' := by
  have hfind := hsame.find? hwell.1
  rw [acceptable_iff, acceptable_iff]
  refine and_congr ?_ (and_congr ?_ (and_congr ?_ (and_congr ?_ ?_)))
  · exact forall_congr' fun name => imp_congr_left (hsame.sameKeys name)
  · exact or_congr (none_iff_of_rel (hfind _))
      (exists_congr fun text => (rigid_string text).eq_some_iff (hfind _))
  · simp only [← Option.isSome_iff_exists, Option.isSome_iff_ne_none, ne_eq,
      none_iff_of_rel (hfind "input")]
  · refine or_congr (none_iff_of_rel (hfind _)) (or_congr (rigid_null.eq_some_iff (hfind _)) ?_)
    exact object_iff_of_rel (hfind _)
  · rcases cases_of_rel (hfind "expect") with
      ⟨hnone, hnone'⟩ | ⟨value, value', hfound, hfound', hvalue⟩
    · simp [hnone, hnone']
    · simp only [hfound, hfound', Option.some.injEq, exists_eq_left']
      exact exists_congr fun outcome => Outcome.ofJson_iff_of_reordered (hwell.find? hfound)
        (hwell'.find? hfound') hvalue

end

/-! ## Fixtures in files -/

/-- A file that holds one object, in which no key comes twice, nor in the object of its expected
outcome. -/
structure HeldIn (files : FileTree) (path : String) (written : Members) : Prop where
  parsed : ∃ text, files.read path = .ok text ∧
    parseWritten nestingLimit text = .ok (.object written)
  keys : (Entries.names written).Nodup
  expectKeys : ∀ members, Entries.find? written "expect" = some (.object members) →
    (Entries.names members).Nodup

section

variable {files : FileTree} {path : String} {written : Members}

theorem HeldIn.loadJson_eq (h : HeldIn files path written) :
    loadJson files path = .ok (.object (mergedMembers written)) := by
  obtain ⟨text, hread, hwritten⟩ := h.parsed
  have hkeys : (Entries.names (mergedMembers written)).Nodup :=
    RecordShape.names_mergedMembers written ▸ h.keys
  rw [TreeSyntax.loadJson, readFile_of_read hread]
  simp only [Json.parse, hwritten, Except.map, merged, Entries.merge_of_nodup hkeys]

/-- The file is read as if its whole value were there. -/
private theorem HeldIn.follows (h : HeldIn files path written) :
    ∃ text rest, files.read path = .ok text ∧
      Follows (shape.read text.toList) rest (record.ofMembers (mergedMembers written)) := by
  obtain ⟨text, hread, hwritten⟩ := h.parsed
  obtain ⟨rest, hvalue, -⟩ := readAll_eq_ok_iff.mp hwritten
  refine ⟨text, rest, hread, ?_⟩
  refine RecordShape.follows_read_object fieldsStream separate isFilled_start hvalue h.keys ?_
  rintro key value hmem rfl members rfl
  exact h.expectKeys members ((Entries.find?_eq_some_iff_mem h.keys).mpr hmem)

theorem HeldIn.loadFixture_eq_ok_iff (h : HeldIn files path written) {fixture : Fixture} :
    loadFixture files path = .ok fixture ↔
      record.ofMembers (mergedMembers written) = .ok fixture := by
  obtain ⟨text, rest, hread, hfollows⟩ := h.follows
  rw [loadFixture, loadShape, readFile_of_read hread]
  rcases hfollows.cases with
    ⟨fault, mismatch, hfault, hmismatch⟩ | ⟨value, later, hlater, hvalue, -⟩
  · simp [hfault, hmismatch]
  · simp [hlater, hvalue]

private theorem wrongShape_of_loadFixture {error : LoadError} {text : String}
    (hread : files.read path = .ok text) (h : loadFixture files path = .error error) :
    ∃ steps cause, error = .wrongShape path steps cause := by
  rw [loadFixture, loadShape, readFile_of_read hread] at h
  dsimp only at h
  split at h
  next => cases h
  next fault _ =>
    cases h
    exact ⟨fault.steps, fault.cause, rfl⟩

end

section

variable {files : FileTree} {path : String} {written members : Members}

theorem HeldIn.wellFormed (h : HeldIn files path written)
    (hload : loadJson files path = .ok (.object members)) : (Json.object members).WellFormed := by
  obtain ⟨text, hread, hwritten⟩ := h.parsed
  have hparse : parse text = .ok (merged (.object written)) := by rw [Json.parse, hwritten]; rfl
  rw [TreeSyntax.loadJson, readFile_of_read hread] at hload
  simp only [hparse, Except.ok.injEq] at hload
  exact hload ▸ wellFormed_merged (.object written)

theorem HeldIn.loadFixture_iff_described (h : HeldIn files path written)
    (hload : loadJson files path = .ok (.object members)) {fixture : Fixture} :
    loadFixture files path = .ok fixture ↔ Described members fixture := by
  have hmembers : members = mergedMembers written :=
    object.inj (Except.ok.inj (hload.symm.trans h.loadJson_eq))
  rw [h.loadFixture_eq_ok_iff, ← hmembers, ofMembers_eq_ok_iff (h.wellFormed hload)]

end

/-- What may be left out is left out, and the expected outcome is written as an array. -/
theorem loadFixture_of_written {files : FileTree} {path text : String} {outcome : Outcome}
    (input : Json) (items : List Json) (hread : files.read path = .ok text)
    (hwritten : parseWritten nestingLimit text =
      .ok (.object [("input", input), ("expect", .array items)]))
    (hexpect : Outcome.ofJson (merged (.array items)) = .ok outcome) :
    loadFixture files path = .ok ⟨"", input.merged, none, outcome⟩ := by
  have hheld : HeldIn files path [("input", input), ("expect", .array items)] :=
    ⟨⟨text, hread, hwritten⟩, by simp, fun members h => by cases h⟩
  have hknown : ∀ name ∈ ["input", "expect"], name ∈ keys := by decide
  exact (hheld.loadFixture_iff_described hheld.loadJson_eq).mpr
    ⟨hknown, .inl ⟨rfl, rfl⟩, rfl, .inl ⟨.inl rfl, rfl⟩, _, rfl, hexpect⟩

/-- What a file describes is loaded from it, and nothing else. -/
theorem files_describe_fixtures (files : FileTree) :
    (∀ path written, HeldIn files path written →
      ∃ members, loadJson files path = .ok (.object members) ∧
        ((∃ fixture, loadFixture files path = .ok fixture) ↔ Acceptable members) ∧
        (∀ fixture, loadFixture files path = .ok fixture ↔ Described members fixture) ∧
        ∀ error, loadFixture files path = .error error →
          ∃ steps cause, error = .wrongShape path steps cause) ∧
    ∀ path path' written written' members members',
      HeldIn files path written → loadJson files path = .ok (.object members) →
      HeldIn files path' written' → loadJson files path' = .ok (.object members') →
      (members.Perm members' →
        ∀ fixture, loadFixture files path = .ok fixture ↔ loadFixture files path' = .ok fixture) ∧
      ((Json.object members).Reordered (.object members') →
        ((∃ fixture, loadFixture files path = .ok fixture) ↔
          ∃ fixture, loadFixture files path' = .ok fixture) ∧
        ∀ fixture fixture', loadFixture files path = .ok fixture →
          loadFixture files path' = .ok fixture' → SameUpToOrder fixture fixture') := by
  constructor
  · intro path written h
    obtain ⟨text, hread, -⟩ := h.parsed
    have hdescribed {fixture : Fixture} : loadFixture files path = .ok fixture ↔
        Described (mergedMembers written) fixture := h.loadFixture_iff_described h.loadJson_eq
    refine ⟨mergedMembers written, h.loadJson_eq, ?_, fun _ => hdescribed,
      fun _ => wrongShape_of_loadFixture hread⟩
    rw [← exists_described_iff]
    exact exists_congr fun _ => hdescribed
  · intro path path' written written' members members' h hload h' hload'
    have hwell := h.wellFormed hload
    have hwell' := h'.wellFormed hload'
    simp only [h.loadFixture_iff_described hload, h'.loadFixture_iff_described hload',
      exists_described_iff]
    refine ⟨fun hperm fixture => ⟨fun hdescribed => ?_, fun hdescribed => ?_⟩, fun hsame => ?_⟩
    · exact hdescribed.perm hperm hwell.1
    · exact hdescribed.perm hperm.symm hwell'.1
    · exact ⟨acceptable_iff_of_reordered hwell hwell' hsame,
        fun _ _ hdescribed hdescribed' => hdescribed.reordered hdescribed' hwell hwell' hsame⟩

def threeOrders : FileTree :=
  ⟨[(["first"],
      .file "\x7b\"expect\":[true,\"\",[]],\"input\":\x7b\"b\":0,\"a\":1\x7d\x7d".toUTF8),
    (["second"],
      .file "\x7b\"input\":\x7b\"b\":0,\"a\":1\x7d,\"expect\":[true,\"\",[]]\x7d".toUTF8),
    (["third"],
      .file "\x7b\"input\":\x7b\"a\":1,\"b\":0\x7d,\"expect\":[true,\"\",[]]\x7d".toUTF8),
    (["none"], .file "\x7b\"input\":0,\"extra\":1\x7d".toUTF8)]⟩

def firstOrder : Members :=
  [("expect", .array [.bool true, .string "", .array []]),
    ("input", .object [("b", .number (.integer 0)), ("a", .number (.integer 1))])]

def secondOrder : Members :=
  firstOrder.reverse

def thirdOrder : Members :=
  [("input", .object [("a", .number (.integer 1)), ("b", .number (.integer 0))]),
    ("expect", .array [.bool true, .string "", .array []])]

def noFixture : Members :=
  [("input", .number (.integer 0)), ("extra", .number (.integer 1))]

def inOrder : Fixture :=
  ⟨"", .object [("b", .number (.integer 0)), ("a", .number (.integer 1))], none, ⟨true, none, []⟩⟩

theorem threeOrders_described :
    HeldIn threeOrders "first" firstOrder ∧ HeldIn threeOrders "second" secondOrder ∧
    HeldIn threeOrders "third" thirdOrder ∧ HeldIn threeOrders "none" noFixture ∧
    loadFixture threeOrders "first" = .ok inOrder ∧
    firstOrder.Perm secondOrder ∧ loadFixture threeOrders "second" = .ok inOrder ∧
    (Json.object firstOrder).Reordered (.object thirdOrder) ∧
    (∃ fixture, loadFixture threeOrders "third" = .ok fixture ∧ SameUpToOrder inOrder fixture) ∧
    ∃ steps cause, loadFixture threeOrders "none" = .error (.wrongShape "none" steps cause) := by
  have hfirst : HeldIn threeOrders "first" firstOrder := by
    refine ⟨⟨_, rfl, by decide +kernel⟩, by decide, fun members h => ?_⟩
    cases h
  have hsecond : HeldIn threeOrders "second" secondOrder := by
    refine ⟨⟨_, rfl, by decide +kernel⟩, by decide, fun members h => ?_⟩
    cases h
  have hthird : HeldIn threeOrders "third" thirdOrder := by
    refine ⟨⟨_, rfl, by decide +kernel⟩, by decide, fun members h => ?_⟩
    cases h
  have hnone : HeldIn threeOrders "none" noFixture := by
    refine ⟨⟨_, rfl, by decide +kernel⟩, by decide, fun members h => ?_⟩
    cases h
  obtain ⟨hloads, horders⟩ := files_describe_fixtures threeOrders
  have hfirst' : loadJson threeOrders "first" = .ok (.object firstOrder) := hfirst.loadJson_eq
  have hin : Described firstOrder inOrder :=
    ⟨by decide, .inl ⟨rfl, rfl⟩, rfl, .inl ⟨.inl rfl, rfl⟩, _, rfl, rfl⟩
  obtain ⟨members, hmembers, -, hdescribed, -⟩ := hloads _ _ hfirst
  obtain rfl := object.inj (Except.ok.inj (hmembers.symm.trans hfirst'))
  have hload : loadFixture threeOrders "first" = .ok inOrder := (hdescribed inOrder).mpr hin
  have hperm : firstOrder.Perm secondOrder := firstOrder.reverse_perm.symm
  have hsecond' := (horders _ _ _ _ _ _ hfirst hfirst' hsecond hsecond.loadJson_eq).1 hperm
  have hexpect : Reordered (.array [.bool true, .string "", .array []])
      (.array [.bool true, .string "", .array []]) :=
    .array (.cons (.bool true) (.cons (.string "") (.cons (.array .nil) .nil)))
  have hsame : (Json.object firstOrder).Reordered (.object thirdOrder) :=
    .object (.swap _ _ _) (.cons (.object (.swap _ _ _)
      (.cons (.number _) (.cons (.number _) .nil))) (.cons hexpect .nil))
  obtain ⟨hboth, hthird'⟩ :=
    (horders _ _ _ _ _ _ hfirst hfirst' hthird hthird.loadJson_eq).2 hsame
  obtain ⟨fixture, hfixture⟩ := hboth.mp ⟨inOrder, hload⟩
  obtain ⟨others, hothers, haccepts, -, herrors⟩ := hloads _ _ hnone
  obtain rfl := object.inj (Except.ok.inj (hothers.symm.trans hnone.loadJson_eq))
  refine ⟨hfirst, hsecond, hthird, hnone, hload, hperm, (hsecond' inOrder).mp hload, hsame,
    ⟨fixture, hfixture, hthird' inOrder fixture hload hfixture⟩, ?_⟩
  cases hrefused : loadFixture threeOrders "none" with
  | ok fixture =>
      have hextra := (haccepts.mp ⟨fixture, hrefused⟩).known "extra" (by decide)
      exact absurd hextra (by decide)
  | error error =>
      obtain ⟨steps, cause, rfl⟩ := herrors error hrefused
      exact ⟨steps, cause, rfl⟩

end Fixture

end TreeSyntax
