import Mathlib.Data.List.Forall2
import TreeSyntax.CommandLine.Report
import TreeSyntax.Proofs.WellFormed

/-!
# The wire form of an outcome

An outcome is read from an object exactly if the values of three keys describe it, wherever they
stand and whatever else the object holds.  So it is read back from what it is written as, also
when it is written into the report of a file.
-/

namespace TreeSyntax

/-! ## Traversals that succeed -/

theorem bind_eq_ok_iff {α β ε : Type} {first : Except ε α} {next : α → Except ε β} {result : β} :
    first >>= next = .ok result ↔ ∃ value, first = .ok value ∧ next value = .ok result := by
  cases first with
  | error error =>
      constructor
      · nofun
      · rintro ⟨value, ⟨⟩, -⟩
  | ok value =>
      constructor
      · intro h
        exact ⟨value, rfl, h⟩
      · rintro ⟨_, ⟨⟩, h⟩
        exact h

theorem map_eq_ok_iff {α β ε : Type} {first : Except ε α} {change : α → β} {result : β} :
    first.map change = .ok result ↔ ∃ value, first = .ok value ∧ change value = result := by
  cases first <;> simp [Except.map]

theorem mapM_eq_ok_iff {α β ε : Type} {f : α → Except ε β} {items : List α} {results : List β} :
    items.mapM f = .ok results ↔
      List.Forall₂ (fun item result => f item = .ok result) items results := by
  induction items generalizing results with
  | nil =>
      rw [List.mapM_nil, List.forall₂_nil_left_iff]
      constructor
      · rintro ⟨⟩
        rfl
      · rintro rfl
        rfl
  | cons item items ih =>
      simp only [List.mapM_cons, List.forall₂_cons_left_iff, bind_eq_ok_iff, ih]
      constructor
      · rintro ⟨result, hitem, more, hmore, ⟨⟩⟩
        exact ⟨result, more, hitem, hmore, rfl⟩
      · rintro ⟨result, more, hitem, hmore, rfl⟩
        exact ⟨result, hitem, more, hmore, rfl⟩

namespace Json

/-! ## Scalars and lists of them -/

@[simp] theorem ofValue_bool_eq_ok_iff {value : Json} {accepted : Bool} :
    Shape.bool.ofValue value = .ok accepted ↔ value = .bool accepted := by
  cases value <;> simp [Shape.bool, Shape.scalar]

@[simp] theorem ofValue_text_eq_ok_iff {name : String} {value : Json} {accepted : String} :
    (Shape.text name).ofValue value = .ok accepted ↔ value = .string accepted := by
  cases value <;> simp [Shape.text, Shape.scalar]

@[simp] theorem ofValue_texts_eq_ok_iff {name : String} {value : Json} {accepted : List String} :
    (Shape.text name).list.ofValue value = .ok accepted ↔
      value = .array (accepted.map .string) := by
  cases value with
  | array items =>
      have hitems : List.Forall₂ (fun item text => item = .string text) items accepted ↔
          items = accepted.map .string := by
        rw [← List.forall₂_map_right_iff, List.forall₂_eq_eq_eq]
      rw [array.injEq, ← hitems]
      simp only [Shape.list, mapM_eq_ok_iff, ofValue_text_eq_ok_iff]
  | _ => simp [Shape.list]

/-! ## Members of a record -/

namespace RecordShape

variable {σ α β : Type} {record : RecordShape σ α} {name : String} {shape : Shape β}
  {view : σ → Option β} {members : Members} {state final : σ}

structure Sees (record : RecordShape σ α) (name : String) (shape : Shape β)
    (view : σ → Option β) : Prop where
  own (state : σ) (value : Json) :
    (record.takeMember state (name, value)).map view = (shape.ofValue value).map some
  other {state next : σ} {member : String × Json} (hname : member.1 ≠ name)
    (htaken : record.takeMember state member = .ok next) : view next = view state

theorem field?_eq_some_of_mem (hnames : record.fieldNames.Nodup) {field : Field σ}
    (hmem : field ∈ record.fields) : record.field? field.name = some field := by
  obtain ⟨before, after, hfields⟩ := List.append_of_mem hmem
  have hother : ∀ other ∈ before, other.name ≠ field.name := by
    simp only [fieldNames, hfields, List.map_append, List.map_cons, List.nodup_append,
      List.mem_cons] at hnames
    intro other hbefore
    exact hnames.2.2 other.name (List.mem_map_of_mem hbefore) field.name (.inl rfl)
  rw [field?, List.find?_eq_some_iff_append]
  exact ⟨beq_self_eq_true field.name, before, after, hfields, by simpa using hother⟩

theorem takeMember_of_named {field : Field σ} (hfield : record.field? name = some field)
    (state : σ) (value : Json) :
    record.takeMember state (name, value) =
      (field.shape.ofValue value).map fun accepted => field.fill accepted state := by
  rw [takeMember, hfield]

theorem takeMember_of_unknown (hunknown : record.field? name = none)
    (hallowed : record.allowsUnknown = true) (state : σ) (value : Json) :
    record.takeMember state (name, value) = .ok state := by
  rw [takeMember, hunknown]
  simp only [hallowed, if_true]

/-- The fields have names of their own, and each fills in what is seen of it and leaves what is
seen of the others. -/
structure Separate (record : RecordShape σ α) : Prop where
  names : record.fieldNames.Nodup
  own : ∀ field ∈ record.fields, ∀ accepted state,
    field.view (field.fill accepted state) = some accepted
  others : ∀ field ∈ record.fields, ∀ other ∈ record.fields, other.name ≠ field.name →
    ∀ accepted state, field.view (other.fill accepted state) = field.view state

theorem Separate.sees (h : record.Separate) {field : Field σ} (hmem : field ∈ record.fields) :
    record.Sees field.name field.shape field.view where
  own state value := by
    rw [takeMember_of_named (field?_eq_some_of_mem h.names hmem)]
    cases field.shape.ofValue value with
    | error mismatch => rfl
    | ok accepted => exact congrArg Except.ok (h.own field hmem accepted state)
  other := by
    rintro state next ⟨name, value⟩ hname htaken
    cases hfound : record.field? name with
    | none =>
        simp only [takeMember, hfound] at htaken
        split at htaken
        · rw [Except.ok.inj htaken]
        · cases htaken
    | some other =>
        have hnamed : other.name = name := by simpa using List.find?_some hfound
        rw [takeMember_of_named hfound, map_eq_ok_iff] at htaken
        obtain ⟨accepted, -, rfl⟩ := htaken
        exact h.others field hmem other (List.mem_of_find?_eq_some hfound) (hnamed ▸ hname) accepted
          state

namespace Sees

variable (hsees : record.Sees name shape view)

include hsees

theorem exists_takeMember {value : Json} {accepted : β}
    (hvalue : shape.ofValue value = .ok accepted) (state : σ) :
    ∃ next, record.takeMember state (name, value) = .ok next := by
  have hown := hsees.own state value
  rw [hvalue] at hown
  obtain ⟨next, hnext, -⟩ := map_eq_ok_iff.mp hown
  exact ⟨next, hnext⟩

theorem view_eq_of_notMem (hname : name ∉ Entries.names members)
    (htaken : members.foldlM record.takeMember state = .ok final) : view final = view state := by
  induction members generalizing state with
  | nil =>
      cases htaken
      rfl
  | cons member members ih =>
      rw [Entries.names_cons, List.mem_cons, not_or] at hname
      rw [List.foldlM_cons, bind_eq_ok_iff] at htaken
      obtain ⟨next, hmember, hrest⟩ := htaken
      exact (ih hname.2 hrest).trans (hsees.other (Ne.symm hname.1) hmember)

/-- After all members have been taken, the value at the name is seen. -/
private theorem view_eq_of_find? {value : Json} (hnodup : (Entries.names members).Nodup)
    (hvalue : Entries.find? members name = some value)
    (htaken : members.foldlM record.takeMember state = .ok final) :
    (shape.ofValue value).map some = .ok (view final) := by
  obtain ⟨before, after, rfl⟩ :=
    List.append_of_mem ((Entries.find?_eq_some_iff_mem hnodup).mp hvalue)
  have hafter : name ∉ Entries.names after := by
    simp only [Entries.names, List.map_append, List.map_cons, List.nodup_append,
      List.nodup_cons] at hnodup
    exact hnodup.2.1.1
  -- Whatever is seen before the member is taken over, and no later one has its name.
  rw [List.foldlM_append, bind_eq_ok_iff] at htaken
  obtain ⟨middle, -, htaken⟩ := htaken
  rw [List.foldlM_cons, bind_eq_ok_iff] at htaken
  obtain ⟨next, hmember, hrest⟩ := htaken
  rw [← hsees.own middle value, hmember, hsees.view_eq_of_notMem hafter hrest]
  rfl

/-- Either no member has the name and nothing is seen, or the value of the one that has is seen. -/
theorem view_cases (hnodup : (Entries.names members).Nodup) (hstate : view state = none)
    (htaken : members.foldlM record.takeMember state = .ok final) :
    (Entries.find? members name = none ∧ view final = none) ∨
      ∃ value accepted, Entries.find? members name = some value ∧
        shape.ofValue value = .ok accepted ∧ view final = some accepted := by
  cases hfound : Entries.find? members name with
  | none =>
      have hname : name ∉ Entries.names members :=
        fun hmem => absurd (Entries.find?_isSome_iff.mpr hmem) (by simp [hfound])
      exact .inl ⟨rfl, (hsees.view_eq_of_notMem hname htaken).trans hstate⟩
  | some value =>
      have hseen := hsees.view_eq_of_find? hnodup hfound htaken
      obtain ⟨accepted, hvalue, hview⟩ := map_eq_ok_iff.mp hseen
      exact .inr ⟨value, accepted, rfl, hvalue, hview.symm⟩

theorem view_eq_some_iff {accepted : β} (hnodup : (Entries.names members).Nodup)
    (hstate : view state = none) (htaken : members.foldlM record.takeMember state = .ok final) :
    view final = some accepted ↔
      ∃ value, Entries.find? members name = some value ∧ shape.ofValue value = .ok accepted := by
  rcases hsees.view_cases hnodup hstate htaken with
    ⟨hfound, hview⟩ | ⟨value, seen, hfound, hvalue, hview⟩
  · simp [hfound, hview]
  · simp [hfound, hvalue, hview]

end Sees

/-- A record without room for more takes members of its fields only. -/
theorem known_of_foldlM_takeMember (hallowed : record.allowsUnknown = false)
    (htaken : members.foldlM record.takeMember state = .ok final) :
    ∀ name ∈ Entries.names members, (record.field? name).isSome = true := by
  induction members generalizing state with
  | nil => exact List.forall_mem_nil _
  | cons member members ih =>
      rw [List.foldlM_cons, bind_eq_ok_iff] at htaken
      obtain ⟨next, hmember, hrest⟩ := htaken
      rw [Entries.names_cons]
      refine List.forall_mem_cons.mpr ⟨?_, ih hrest⟩
      cases hfield : record.field? member.1 with
      | some field => rfl
      | none => simp [takeMember, hfield, hallowed] at hmember

/-- Members that are all accepted are taken one after the other. -/
theorem exists_foldlM_takeMember
    (h : ∀ member ∈ members, ∀ state, ∃ next, record.takeMember state member = .ok next)
    (state : σ) : ∃ final, members.foldlM record.takeMember state = .ok final := by
  induction members generalizing state with
  | nil => exact ⟨state, rfl⟩
  | cons member members ih =>
      obtain ⟨hmember, hmembers⟩ := List.forall_mem_cons.mp h
      obtain ⟨next, hnext⟩ := hmember state
      obtain ⟨final, hfinal⟩ := ih hmembers next
      refine ⟨final, ?_⟩
      rw [List.foldlM_cons, bind_eq_ok_iff]
      exact ⟨next, hnext, hfinal⟩

/-! ## Records as arrays -/

private theorem takeFields_eq_foldlM {fields : List (Field σ)} {items : List Json}
    (hfields : ∀ field ∈ fields, record.field? field.name = some field)
    (hlength : items.length = fields.length) (state : σ) :
    takeFields fields state items =
      (((fields.map Field.name).zip items).foldlM record.takeMember state).map
        fun final => (final, false, []) := by
  induction fields generalizing items state with
  | nil =>
      rw [List.length_nil, List.length_eq_zero_iff] at hlength
      subst hlength
      rfl
  | cons field fields ih =>
      obtain ⟨item, items, rfl⟩ := List.exists_cons_of_length_eq_add_one hlength
      obtain ⟨hfield, hfields⟩ := List.forall_mem_cons.mp hfields
      rw [List.map_cons, List.zip_cons_cons, List.foldlM_cons, takeFields,
        takeMember_of_named hfield]
      cases field.shape.ofValue item with
      | error mismatch => rfl
      | ok accepted => exact ih hfields (Nat.succ.inj hlength) (field.fill accepted state)

/-- An array of as many values as there are fields stands for the object of the fields. -/
theorem ofItems_eq_ofMembers {items : List Json}
    (hnames : record.fieldNames.Nodup) (hlength : items.length = record.fields.length) :
    record.ofItems items = record.ofMembers (record.fieldNames.zip items) := by
  have hfields : ∀ field ∈ record.fields, record.field? field.name = some field :=
    fun field => field?_eq_some_of_mem hnames
  rw [ofItems, takeFields_eq_foldlM hfields hlength, ofMembers, fieldNames]
  cases ((record.fields.map Field.name).zip items).foldlM record.takeMember record.start with
  | error mismatch => rfl
  | ok final =>
      simp only [Except.map, conclude, Bool.false_eq_true, if_false]
      cases record.finish final <;> rfl

private theorem length_of_takeFields {fields : List (Field σ)} {items rest : List Json}
    (h : takeFields fields state items = .ok (final, false, rest)) :
    items.length = fields.length + rest.length := by
  induction fields generalizing items state with
  | nil =>
      cases h
      simp
  | cons field fields ih =>
      cases items with
      | nil => cases h
      | cons item items =>
          rw [takeFields] at h
          cases hvalue : field.shape.ofValue item with
          | error mismatch =>
              rw [hvalue] at h
              cases h
          | ok accepted =>
              rw [hvalue] at h
              rw [List.length_cons, List.length_cons, ih h]
              omega

theorem length_of_ofItems {items : List Json} {value : α}
    (hearly : ∀ state, record.finishEarly state ≠ .ok value)
    (h : record.ofItems items = .ok value) : items.length = record.fields.length := by
  rw [ofItems] at h
  cases htaken : takeFields record.fields record.start items with
  | error mismatch =>
      rw [htaken] at h
      cases h
  | ok taken =>
      obtain ⟨final, endedEarly, rest⟩ := taken
      simp only [htaken] at h
      cases hconclude : record.conclude (final, endedEarly) with
      | error mismatch =>
          rw [hconclude] at h
          cases h
      | ok concluded =>
          simp only [hconclude] at h
          split at h
          next hrest =>
            cases h
            cases endedEarly with
            | true => exact absurd hconclude (hearly final)
            | false =>
                rw [List.isEmpty_iff.mp hrest] at htaken
                exact length_of_takeFields htaken
          · cases h

end RecordShape

end Json

theorem ErrorCode.ofName?_eq_some_iff {name : String} {code : ErrorCode} :
    ofName? name = some code ↔ name = code.name := by
  constructor
  · intro h
    have hname := List.find?_some h
    exact (eq_of_beq hname).symm
  · rintro rfl
    exact ofName?_name code

namespace Outcome

open Json

/-! ## The three keys -/

theorem decodeCodeText_eq_ok_iff {text : String} {code : Option ErrorCode} :
    decodeCodeText text = .ok code ↔ text = codeText code := by
  rw [decodeCodeText]
  by_cases hempty : text = ""
  · rw [if_pos hempty, hempty]
    cases code with
    | none => simp [codeText]
    | some code => cases code <;> simp [codeText, ErrorCode.name]
  · rw [if_neg hempty, decodeCode]
    cases code with
    | none => cases hname : ErrorCode.ofName? text <;> simp [Except.map, codeText, hempty]
    | some code =>
        rw [codeText, ← ErrorCode.ofName?_eq_some_iff]
        cases hname : ErrorCode.ofName? text <;> simp [Except.map]

theorem ofValue_code_eq_ok_iff {value : Json} {code : Option ErrorCode} :
    ((Shape.text "a string").refine decodeCodeText).ofValue value = .ok code ↔
      value = .string (codeText code) := by
  cases value with
  | string text =>
      rw [string.injEq, ← decodeCodeText_eq_ok_iff]
      rfl
  | _ => simp [Shape.refine, Shape.text, Shape.scalar]

theorem separate : record.Separate where
  names := by decide
  own := by simp [record]
  others := by simp [record]

theorem sees_fields : record.Sees "isValid" .bool Draft.isValid ∧
    record.Sees "errorCode" ((Shape.text "a string").refine decodeCodeText) Draft.errorCode ∧
    record.Sees "errorPath" (Shape.text "a string").list Draft.errorPath :=
  ⟨separate.sees (.head _), separate.sees (.tail _ (.head _)),
    separate.sees (.tail _ (.tail _ (.head _)))⟩

private theorem field?_eq_none {name : String} (hvalid : name ≠ "isValid")
    (hcode : name ≠ "errorCode") (hpath : name ≠ "errorPath") : record.field? name = none := by
  simp [RecordShape.field?, record, hvalid.symm, hcode.symm, hpath.symm]

theorem finish_eq_ok_iff {draft : Draft} {outcome : Outcome} :
    draft.finish = .ok outcome ↔ draft.isValid = some outcome.isValid ∧
      draft.errorCode = some outcome.errorCode ∧ draft.errorPath = some outcome.errorPath := by
  obtain ⟨isValid, errorCode, errorPath⟩ := draft
  obtain ⟨isValid', errorCode', errorPath'⟩ := outcome
  cases isValid <;> cases errorCode <;> cases errorPath <;> simp [Draft.finish]

variable {members : Members} {outcome : Outcome}

def SameValues (first second : Members) : Prop :=
  ∀ key ∈ ["isValid", "errorCode", "errorPath"],
    Entries.find? first key = Entries.find? second key

theorem sameValues_toMembers_iff : SameValues members outcome.toMembers ↔
    Entries.find? members "isValid" = some (.bool outcome.isValid) ∧
    Entries.find? members "errorCode" = some (.string (codeText outcome.errorCode)) ∧
    Entries.find? members "errorPath" = some (.array (outcome.errorPath.map .string)) := by
  simp only [SameValues, List.forall_mem_cons, List.not_mem_nil, false_implies, implies_true,
    and_true]
  rfl

private theorem ofJson_object_eq_ok_iff_foldlM : ofJson (.object members) = .ok outcome ↔
    ∃ draft, members.foldlM record.takeMember Draft.empty = .ok draft ∧
      draft.finish = .ok outcome := by
  rw [← bind_eq_ok_iff]
  simp only [ofJson, shape, RecordShape.shape, RecordShape.ofValue, RecordShape.ofMembers]
  have hstart : record.start = Draft.empty := rfl
  rw [hstart]
  cases members.foldlM record.takeMember Draft.empty <;> rfl

private theorem exists_foldlM_of_sameValues (hnodup : (Entries.names members).Nodup)
    (h : SameValues members outcome.toMembers) :
    ∃ draft, members.foldlM record.takeMember Draft.empty = .ok draft := by
  obtain ⟨hvalid, hcode, hpath⟩ := sameValues_toMembers_iff.mp h
  obtain ⟨hseesValid, hseesCode, hseesPath⟩ := sees_fields
  apply RecordShape.exists_foldlM_takeMember
  rintro ⟨name, value⟩ hmem state
  have hvalue := (Entries.find?_eq_some_iff_mem hnodup).mpr hmem
  by_cases hname : name = "isValid"
  · subst hname
    exact hseesValid.exists_takeMember
      (ofValue_bool_eq_ok_iff.mpr (Option.some.inj (hvalue.symm.trans hvalid))) state
  by_cases hname' : name = "errorCode"
  · subst hname'
    exact hseesCode.exists_takeMember
      (ofValue_code_eq_ok_iff.mpr (Option.some.inj (hvalue.symm.trans hcode))) state
  by_cases hname'' : name = "errorPath"
  · subst hname''
    exact hseesPath.exists_takeMember
      (ofValue_texts_eq_ok_iff.mpr (Option.some.inj (hvalue.symm.trans hpath))) state
  exact ⟨state, RecordShape.takeMember_of_unknown (field?_eq_none hname hname' hname'') rfl _ _⟩

theorem ofJson_object_eq_ok_iff (hnodup : (Entries.names members).Nodup) :
    ofJson (.object members) = .ok outcome ↔ SameValues members outcome.toMembers := by
  have hvalues {draft : Draft}
      (htaken : members.foldlM record.takeMember Draft.empty = .ok draft) :
      draft.finish = .ok outcome ↔ SameValues members outcome.toMembers := by
    obtain ⟨hvalid, hcode, hpath⟩ := sees_fields
    rw [finish_eq_ok_iff, sameValues_toMembers_iff, hvalid.view_eq_some_iff hnodup rfl htaken,
      hcode.view_eq_some_iff hnodup rfl htaken, hpath.view_eq_some_iff hnodup rfl htaken]
    simp only [ofValue_bool_eq_ok_iff, ofValue_code_eq_ok_iff, ofValue_texts_eq_ok_iff,
      exists_eq_right]
  rw [ofJson_object_eq_ok_iff_foldlM]
  constructor
  · rintro ⟨draft, htaken, hfinish⟩
    exact (hvalues htaken).mp hfinish
  · intro h
    obtain ⟨draft, htaken⟩ := exists_foldlM_of_sameValues hnodup h
    exact ⟨draft, htaken, (hvalues htaken).mpr h⟩

theorem ofJson_array (isValid errorCode errorPath : Json) :
    ofJson (.array [isValid, errorCode, errorPath]) =
      ofJson (.object [("isValid", isValid), ("errorCode", errorCode),
        ("errorPath", errorPath)]) :=
  RecordShape.ofItems_eq_ofMembers separate.names rfl

theorem length_of_ofJson_array {items : List Json} (h : ofJson (.array items) = .ok outcome) :
    items.length = 3 :=
  RecordShape.length_of_ofItems nofun h

def codeTexts : List String :=
  ["", "invalid-input", "invalid-primitive", "invalid-list", "missing-key", "extra-key",
    "type-not-allowed", "too-deep"]

theorem mem_codeTexts_iff {text : String} :
    text ∈ codeTexts ↔ ∃ code, codeText code = text := by
  constructor
  · intro h
    have hall : ∀ text ∈ codeTexts, ∃ code ∈ none :: ErrorCode.all.map some,
        codeText code = text := by decide
    obtain ⟨code, -, hcode⟩ := hall text h
    exact ⟨code, hcode⟩
  · rintro ⟨code, rfl⟩
    cases code with
    | none => decide
    | some code => cases code <;> decide

theorem exists_ofJson_object_iff (hnodup : (Entries.names members).Nodup) :
    (∃ outcome, ofJson (.object members) = .ok outcome) ↔
      (∃ value, Entries.find? members "isValid" = some (.bool value)) ∧
      (∃ text ∈ codeTexts, Entries.find? members "errorCode" = some (.string text)) ∧
      ∃ texts : List String,
        Entries.find? members "errorPath" = some (.array (texts.map .string)) := by
  simp only [ofJson_object_eq_ok_iff hnodup, sameValues_toMembers_iff, mem_codeTexts_iff]
  constructor
  · rintro ⟨outcome, hvalid, hcode, hpath⟩
    exact ⟨⟨_, hvalid⟩, ⟨_, ⟨_, rfl⟩, hcode⟩, ⟨_, hpath⟩⟩
  · rintro ⟨⟨value, hvalid⟩, ⟨_, ⟨code, rfl⟩, hcode⟩, ⟨texts, hpath⟩⟩
    exact ⟨⟨value, code, texts⟩, hvalid, hcode, hpath⟩

theorem ofJson_toJson (outcome : Outcome) : ofJson outcome.toJson = .ok outcome :=
  (ofJson_object_eq_ok_iff (by simp [toMembers])).mpr fun _ _ => rfl

end Outcome

theorem CommandLine.FileReport.ofJson_toJson (report : FileReport) :
    Outcome.ofJson report.toJson = .ok report.outcome := by
  refine (Outcome.ofJson_object_eq_ok_iff ?_).mpr (Outcome.sameValues_toMembers_iff.mpr ?_)
  · simp [Outcome.toMembers]
  · exact ⟨rfl, rfl, rfl⟩

/-- An outcome is read from exactly the objects that agree with what it is written as at three
keys, and from the array of their values. -/
theorem outcomes_read_as_written :
    (∀ outcome : Outcome, Outcome.ofJson outcome.toJson = .ok outcome) ∧
    (∀ report : CommandLine.FileReport, Outcome.ofJson report.toJson = .ok report.outcome) ∧
    (∀ members outcome, (Entries.names members).Nodup →
      Outcome.ofJson (.object members) = .ok outcome →
      Outcome.SameValues members outcome.toMembers ∧
      ∀ members', (Entries.names members').Nodup → Outcome.SameValues members' members →
        Outcome.ofJson (.object members') = .ok outcome) ∧
    (∀ members, (Entries.names members).Nodup →
      ((∃ outcome, Outcome.ofJson (.object members) = .ok outcome) ↔
        (∃ value, Entries.find? members "isValid" = some (.bool value)) ∧
        (∃ text ∈ Outcome.codeTexts, Entries.find? members "errorCode" = some (.string text)) ∧
        ∃ texts : List String,
          Entries.find? members "errorPath" = some (.array (texts.map .string)))) ∧
    (∀ isValid errorCode errorPath,
      Outcome.ofJson (.array [isValid, errorCode, errorPath]) =
        Outcome.ofJson (.object [("isValid", isValid), ("errorCode", errorCode),
          ("errorPath", errorPath)])) ∧
    ∀ items outcome, Outcome.ofJson (.array items) = .ok outcome → items.length = 3 := by
  refine ⟨Outcome.ofJson_toJson, CommandLine.FileReport.ofJson_toJson, ?_,
    fun _ => Outcome.exists_ofJson_object_iff, Outcome.ofJson_array,
    fun _ _ => Outcome.length_of_ofJson_array⟩
  intro members outcome hnodup hread
  have hvalues := (Outcome.ofJson_object_eq_ok_iff hnodup).mp hread
  refine ⟨hvalues, fun members' hnodup' hsame => ?_⟩
  exact (Outcome.ofJson_object_eq_ok_iff hnodup').mpr
    fun key hkey => (hsame key hkey).trans (hvalues key hkey)

def validYetDeep : Members :=
  [("errorPath", .array []), ("note", .null), ("errorCode", .string "too-deep"),
    ("isValid", .bool true)]

theorem validYetDeep_read :
    (Entries.names validYetDeep).Nodup ∧
    Outcome.ofJson (.object validYetDeep) = .ok ⟨true, some .tooDeep, []⟩ ∧
    Outcome.SameValues validYetDeep (Outcome.toMembers ⟨true, some .tooDeep, []⟩) ∧
    Outcome.ofJson (.object validYetDeep.reverse) = .ok ⟨true, some .tooDeep, []⟩ ∧
    Outcome.ofJson (.array [.bool true, .string "too-deep", .array []]) =
      .ok ⟨true, some .tooDeep, []⟩ ∧
    [Json.bool true, .string "too-deep", .array []].length = 3 := by
  have hnodup : (Entries.names validYetDeep).Nodup := by decide
  have hread : Outcome.ofJson (.object validYetDeep) = .ok ⟨true, some .tooDeep, []⟩ := rfl
  obtain ⟨hwritten, -, hobjects, -, harray, hlength⟩ := outcomes_read_as_written
  obtain ⟨hsame, hother⟩ := hobjects validYetDeep ⟨true, some .tooDeep, []⟩ hnodup hread
  have hitems : Outcome.ofJson (.array [.bool true, .string "too-deep", .array []]) =
      .ok ⟨true, some .tooDeep, []⟩ := (harray _ _ _).trans (hwritten ⟨true, some .tooDeep, []⟩)
  refine ⟨hnodup, hread, hsame, hother validYetDeep.reverse (by decide) ?_, hitems,
    hlength _ _ hitems⟩
  intro key hkey
  exact Entries.find?_perm validYetDeep.reverse_perm (by decide) key

end TreeSyntax
