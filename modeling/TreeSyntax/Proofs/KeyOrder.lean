import Mathlib.Data.List.Perm.Basic
import TreeSyntax.Proofs.Libraries
import TreeSyntax.Proofs.Likeness
import TreeSyntax.Proofs.WellFormed

/-!
# The order of keys

Two values are reorderings of one another when they differ only in the order of members, in any of
their objects.  No check tells such values apart, and the same path leads to reorderings in both.
-/

namespace TreeSyntax

namespace Json

/-! ## Reorderings -/

mutual

/-- The members of any object may come in another order.  Elements keep theirs. -/
inductive Reordered : Json → Json → Prop
  | null : Reordered .null .null
  | bool (value : Bool) : Reordered (.bool value) (.bool value)
  | number (value : Number) : Reordered (.number value) (.number value)
  | string (text : String) : Reordered (.string text) (.string text)
  | array {items items' : List Json} (hitems : ReorderedItems items items') :
      Reordered (.array items) (.array items')
  | object {members permuted members' : Members} (hperm : members.Perm permuted)
      (hmembers : ReorderedMembers permuted members') :
      Reordered (.object members) (.object members')

inductive ReorderedItems : List Json → List Json → Prop
  | nil : ReorderedItems [] []
  | cons {item item' : Json} {items items' : List Json} (hitem : Reordered item item')
      (hitems : ReorderedItems items items') : ReorderedItems (item :: items) (item' :: items')

inductive ReorderedMembers : Members → Members → Prop
  | nil : ReorderedMembers [] []
  | cons {key : String} {value value' : Json} {members members' : Members}
      (hvalue : Reordered value value') (hmembers : ReorderedMembers members members') :
      ReorderedMembers ((key, value) :: members) ((key, value') :: members')

end

theorem reorderedItems_iff {items items' : List Json} :
    ReorderedItems items items' ↔ List.Forall₂ Reordered items items' := by
  constructor
  · intro h
    induction items generalizing items' with
    | nil =>
        cases h
        exact .nil
    | cons item items ih =>
        cases h with
        | cons hitem hitems => exact .cons hitem (ih hitems)
  · intro h
    induction h with
    | nil => exact .nil
    | cons hitem hitems ih => exact .cons hitem ih

theorem reorderedMembers_iff {members members' : Members} :
    ReorderedMembers members members' ↔
      List.Forall₂ (fun first second => first.1 = second.1 ∧ Reordered first.2 second.2)
        members members' := by
  constructor
  · intro h
    induction members generalizing members' with
    | nil =>
        cases h
        exact .nil
    | cons member members ih =>
        cases h with
        | cons hvalue hmembers => exact .cons ⟨rfl, hvalue⟩ (ih hmembers)
  · intro h
    induction h with
    | nil => exact .nil
    | @cons member member' _ _ hmember hmembers ih =>
        obtain ⟨key, value⟩ := member
        obtain ⟨key', value'⟩ := member'
        obtain ⟨rfl, hvalue⟩ := hmember
        exact .cons hvalue ih

/-- Members may be put in another order before their values are reordered or after. -/
theorem ReorderedMembers.exists_perm {members permuted members' : Members}
    (hperm : members.Perm permuted) (h : ReorderedMembers permuted members') :
    ∃ middle, ReorderedMembers members middle ∧ middle.Perm members' := by
  obtain ⟨middle, hmiddle, hmembers⟩ :=
    List.perm_comp_forall₂ hperm (reorderedMembers_iff.mp h)
  exact ⟨middle, reorderedMembers_iff.mpr hmiddle, hmembers⟩

mutual

theorem Reordered.symm :
    (first : Json) → {second : Json} → first.Reordered second → second.Reordered first
  | .null, _, .null => .null
  | .bool value, _, .bool _ => .bool value
  | .number value, _, .number _ => .number value
  | .string text, _, .string _ => .string text
  | .array items, _, .array hitems => .array (ReorderedItems.symm items hitems)
  | .object members, _, .object hperm hmembers => by
      obtain ⟨middle, hmiddle, hperm'⟩ := hmembers.exists_perm hperm
      exact .object hperm'.symm (ReorderedMembers.symm members hmiddle)

theorem ReorderedItems.symm :
    (items : List Json) → {items' : List Json} → ReorderedItems items items' →
      ReorderedItems items' items
  | [], _, .nil => .nil
  | item :: items, _, .cons hitem hitems =>
      .cons (Reordered.symm item hitem) (ReorderedItems.symm items hitems)

theorem ReorderedMembers.symm :
    (members : Members) → {members' : Members} → ReorderedMembers members members' →
      ReorderedMembers members' members
  | [], _, .nil => .nil
  | (_, value) :: members, _, .cons hvalue hmembers =>
      .cons (Reordered.symm value hvalue) (ReorderedMembers.symm members hmembers)

end

theorem ReorderedMembers.names_eq {members members' : Members}
    (h : ReorderedMembers members members') : Entries.names members = Entries.names members' := by
  induction members generalizing members' with
  | nil =>
      cases h
      rfl
  | cons member members ih =>
      cases h with
      | cons hvalue hmembers => exact congrArg (_ :: ·) (ih hmembers)

theorem ReorderedMembers.find? {members members' : Members} (h : ReorderedMembers members members')
    (key : String) :
    Option.Rel Reordered (Entries.find? members key) (Entries.find? members' key) := by
  induction members generalizing members' with
  | nil =>
      cases h
      exact .none
  | cons member members ih =>
      cases h with
      | @cons name value value' _ members' hvalue hmembers =>
          simp only [Entries.find?, List.lookup_cons]
          cases key == name with
          | true => exact .some hvalue
          | false => exact ih hmembers

namespace Reordered

variable {members members' : Members}

theorem sameKeys {first second : Json} (h : first.Reordered second) : SameKeys first second := by
  cases h with
  | object hperm hmembers =>
      intro key
      rw [← hmembers.names_eq]
      exact (hperm.map Prod.fst).mem_iff
  | _ => trivial

theorem find? (h : (Json.object members).Reordered (Json.object members'))
    (hnodup : (Entries.names members).Nodup) (key : String) :
    Option.Rel Reordered (Entries.find? members key) (Entries.find? members' key) := by
  cases h with
  | object hperm hmembers =>
      rw [Entries.find?_perm hperm hnodup]
      exact hmembers.find? key

theorem valueAt (h : (Json.object members).Reordered (Json.object members'))
    (hnodup : (Entries.names members).Nodup) (key : String) :
    (valueAt members key).Reordered (TreeSyntax.valueAt members' key) := by
  have hfind := h.find? hnodup key
  simp only [TreeSyntax.valueAt]
  generalize Entries.find? members key = value at hfind
  generalize Entries.find? members' key = value' at hfind
  cases hfind with
  | none => exact .null
  | some hvalue => exact hvalue

theorem text?_eq {first second : Json} (h : first.Reordered second) :
    first.text? = second.text? := by
  cases h <;> rfl

theorem items? {first second : Json} (h : first.Reordered second) :
    Option.Rel (List.Forall₂ Reordered) first.items? second.items? := by
  cases h with
  | array hitems => exact .some (reorderedItems_iff.mp hitems)
  | _ => exact .none

theorem isStructured_eq {first second : Json} (h : first.Reordered second) :
    first.isStructured = second.isStructured := by
  cases h <;> rfl

end Reordered

/-! ## Texts -/

mutual

theorem Reordered.plainText_eq :
    (first : Json) → {second : Json} → first.Reordered second →
      first.plainText = second.plainText
  | .null, _, .null => rfl
  | .bool _, _, .bool _ => rfl
  | .number _, _, .number _ => rfl
  | .string _, _, .string _ => rfl
  | .array items, _, .array hitems =>
      congrArg (Text.joined ",") (ReorderedItems.itemTexts_eq items hitems)
  | .object _, _, .object _ _ => rfl

theorem ReorderedItems.itemTexts_eq :
    (items : List Json) → {items' : List Json} → ReorderedItems items items' →
      itemTexts items = itemTexts items'
  | [], _, .nil => rfl
  | item :: items, _, .cons hitem hitems => by
      have hrest := ReorderedItems.itemTexts_eq items hitems
      have hfirst := Reordered.plainText_eq item hitem
      cases hitem <;> simp only [itemTexts, hrest, hfirst]

end

/-! ## Trails -/

private theorem rel_getElem? {items items' : List Json} (h : List.Forall₂ Reordered items items')
    (index : Nat) : Option.Rel Reordered items[index]? items'[index]? := by
  induction h generalizing index with
  | nil => exact .none
  | cons hitem hitems ih =>
      cases index with
      | zero => exact .some hitem
      | succ index => exact ih index

theorem Reordered.child? {first second : Json} (hwell : first.WellFormed)
    (h : first.Reordered second) (segment : String) :
    Option.Rel Reordered (first.child? segment) (second.child? segment) := by
  cases h with
  | object hperm hmembers => exact Reordered.find? (.object hperm hmembers) hwell.1 segment
  | array hitems =>
      simp only [Json.child?]
      cases Text.unsigned? segment with
      | none => exact .none
      | some index => exact rel_getElem? (reorderedItems_iff.mp hitems) index
  | _ => exact .none

theorem WellFormed.child? {value child : Json} {segment : String} (hwell : value.WellFormed)
    (h : value.child? segment = some child) : child.WellFormed := by
  cases value with
  | object members => exact hwell.find? h
  | array items =>
      obtain ⟨index, hindex, hitem⟩ := Option.bind_eq_some_iff.mp h
      exact hwell.getElem? hitem
  | _ => cases h

/-- The same trail leads to reorderings of one another. -/
theorem Reordered.follow? {first second : Json} (hwell : first.WellFormed)
    (h : first.Reordered second) (segments : List String) :
    Option.Rel Reordered (first.follow? segments) (second.follow? segments) := by
  induction segments generalizing first second with
  | nil => exact .some h
  | cons segment segments ih =>
      have hchild := h.child? hwell segment
      simp only [Json.follow?]
      generalize hfirst : first.child? segment = child at hchild ⊢
      generalize second.child? segment = child' at hchild ⊢
      cases hchild with
      | none => exact .none
      | some hchild => exact ih (hwell.child? hfirst) hchild

end Json

/-! ## Checks -/

private theorem isLikeness_reordered :
    IsLikeness fun _ _ first second => first.WellFormed ∧ first.Reordered second where
  accepts_eq _ h := congrArg _ (Json.Reordered.plainText_eq _ h.2)
  sameKeys _ h := h.2.sameKeys
  direct _ _ h := h
  reference {type members members'} _ _ h := by
    have hcontent := And.intro (h.1.valueAt referenceKey) (h.2.valueAt h.1.1 referenceKey)
    rw [(h.2.valueAt h.1.1 referenceFlagKey).text?_eq]
    exact ⟨Iff.rfl, by split <;> exact hcontent⟩
  payload _ _ _ h :=
    ⟨(h.2.valueAt h.1.1 tagKey).text?_eq, fun _ _ =>
      ⟨h.1.valueAt payloadKey, h.2.valueAt h.1.1 payloadKey⟩⟩
  field {type resolved fields members members' field} _ _ _ _ h := by
    have hvalue := h.2.valueAt h.1.1 field.key
    have hwell := h.1.valueAt field.key
    generalize valueAt members field.key = value at hvalue hwell
    generalize valueAt members' field.key = value' at hvalue
    split
    · cases hvalue with
      | array hitems =>
          refine .some ((List.forall₂_and_left _ _).mpr ⟨?_, Json.reorderedItems_iff.mp hitems⟩)
          exact Json.wellFormedItems_iff.mp hwell
      | _ => exact .none
    · exact ⟨hwell, hvalue⟩

private theorem validateWith_congr {options : Options} {libraries : Option Libraries}
    {first second : Json} (hstructured : first.isStructured = second.isStructured)
    (h : validateSyntax options first = validateSyntax options second) :
    validateWith options libraries first = validateWith options libraries second := by
  simp only [validateWith, review, hstructured]
  cases second.isStructured with
  | false => rfl
  | true =>
      simp only [if_true]
      generalize (if options.checkLibraries then failingLibrary? options (libraries.getD [])
        else none) = failing
      cases failing with
      | none => exact h
      | some failing => rfl

/-- Values that differ only in the order of members, anywhere in them, get the same outcome from
every check.  An outcome also leads to the same node in both, up to such an order again. -/
theorem key_order_never_matters {first second : Json} (hwell : first.WellFormed)
    (h : first.Reordered second) :
    (∀ options, validateSyntax options first = validateSyntax options second) ∧
    (∀ options typeName resolved,
      (checkNode options typeName resolved first).mapReason Violation.code =
        (checkNode options typeName resolved second).mapReason Violation.code) ∧
    (∀ typeName resolved,
      validateNode typeName resolved first = validateNode typeName resolved second) ∧
    (∀ options libraries,
      validateWith options libraries first = validateWith options libraries second) ∧
    ∀ outcome : Outcome,
      Option.Rel Json.Reordered (outcome.locate? first) (outcome.locate? second) := by
  have hprogram (options : Options) :
      validateSyntax options first = validateSyntax options second :=
    isLikeness_reordered.validateSyntax_eq options ⟨hwell, h⟩
  have hnode (options : Options) (typeName : String) (resolved : Bool) :
      (checkNode options typeName resolved first).mapReason Violation.code =
        (checkNode options typeName resolved second).mapReason Violation.code :=
    isLikeness_reordered.checkNode_eq options fun _ => ⟨hwell, h⟩
  refine ⟨hprogram, hnode, fun typeName resolved => ?_, fun options libraries => ?_, ?_⟩
  · exact congrArg Outcome.ofVerdict (hnode .default typeName resolved)
  · exact validateWith_congr h.isStructured_eq (hprogram options)
  · intro outcome
    rw [Outcome.locate?, Outcome.locate?]
    cases outcome.errorPath with
    | nil => exact .none
    | cons segment segments =>
        simp only
        split
        · exact h.follow? hwell segments
        · exact .none

def wordForIndex : Json :=
  .object [("functions", .array [.object [
    ("id", .array [.object [("x", .null), ("y", .bool true)]]),
    ("function", .object [
      ("isVariableReference", .string "true"), ("reference", .string "seven")])]])]

def wordForIndexReordered : Json :=
  .object [("functions", .array [.object [
    ("function", .object [
      ("reference", .string "seven"), ("isVariableReference", .string "true")]),
    ("id", .array [.object [("y", .bool true), ("x", .null)]])]])]

private theorem wordForIndex_reordered : wordForIndex.Reordered wordForIndexReordered := by
  have hid : Json.Reordered (.array [.object [("x", .null), ("y", .bool true)]])
      (.array [.object [("y", .bool true), ("x", .null)]]) :=
    .array (.cons (.object (.swap _ _ _) (.cons (.bool true) (.cons .null .nil))) .nil)
  have hfunction : Json.Reordered
      (.object [("isVariableReference", .string "true"), ("reference", .string "seven")])
      (.object [("reference", .string "seven"), ("isVariableReference", .string "true")]) :=
    .object (.swap _ _ _) (.cons (.string "seven") (.cons (.string "true") .nil))
  refine .object (.refl _) (.cons (.array (.cons ?_ .nil)) .nil)
  exact .object (.swap _ _ _) (.cons hfunction (.cons hid .nil))

theorem wordForIndex_same_outcome :
    wordForIndex.WellFormed ∧ wordForIndex.Reordered wordForIndexReordered ∧
    validateSyntax .default wordForIndexReordered =
      .invalid .invalidPrimitive ["program", "functions", "0", "function", "reference"] ∧
    validateWith ⟨2, true⟩ none wordForIndexReordered =
      .invalid .tooDeep ["program", "functions", "0", "function", "reference"] ∧
    validateNode "domain" true wordForIndexReordered = .invalid .missingKey [] ∧
    Option.Rel Json.Reordered
      ((Outcome.invalid .missingKey ["program", "functions", "0"]).locate? wordForIndex)
      ((Outcome.invalid .missingKey ["program", "functions", "0"]).locate?
        wordForIndexReordered) := by
  have hwell : wordForIndex.WellFormed := by
    simp [wordForIndex, Json.WellFormed, Json.WellFormedItems, Json.WellFormedMembers]
  obtain ⟨hprogram, -, hnode, hwith, hlocate⟩ :=
    key_order_never_matters hwell wordForIndex_reordered
  refine ⟨hwell, wordForIndex_reordered, ?_, ?_, ?_, hlocate _⟩
  · rw [← hprogram]
    decide
  · rw [← hwith]
    decide
  · rw [← hnode]
    decide

end TreeSyntax
