import Mathlib.Data.List.Forall2
import TreeSyntax.Proofs.Exhaustive

/-!
# Nodes that look alike

A likeness is a relation of nodes that every grammar step respects: it finds the same in both
nodes, and the parts it leads to are related again.  In nodes that a likeness relates the same
failures are collected at the same paths, however far the steps lead.
-/

namespace TreeSyntax

/-! ## Likenesses -/

abbrev NodeRelation : Type := NodeType → Bool → Json → Json → Prop

def SameKeys : Json → Json → Prop
  | .object members, .object members' =>
      ∀ key, key ∈ Entries.names members ↔ key ∈ Entries.names members'
  | .object _, _ => False
  | _, .object _ => False
  | _, _ => True

structure IsLikeness (related : NodeRelation) : Prop where
  accepts_eq {type : NodeType} {resolved : Bool} {pattern : Pattern} {first second : Json}
    (hrule : type.rule = .primitive pattern) (h : related type resolved first second) :
    pattern.accepts first.plainText = pattern.accepts second.plainText
  sameKeys {type : NodeType} {resolved : Bool} {first second : Json}
    (hrule : ∀ pattern, type.rule ≠ .primitive pattern)
    (h : related type resolved first second) : SameKeys first second
  direct {type : NodeType} {first second : Json} (hvariable : type.isVariable = true)
    (hnode : isReference first = false) (h : related type false first second) :
    related type true first second
  reference {type : NodeType} {members members' : Members} (hvariable : type.isVariable = true)
    (hkeys : HasExactKeys members referenceKeys)
    (h : related type false (.object members) (.object members')) :
    ((valueAt members referenceFlagKey).text? = some "true" ↔
      (valueAt members' referenceFlagKey).text? = some "true") ∧
    if (valueAt members referenceFlagKey).text? = some "true" then
      related .integerLiteral false (valueAt members referenceKey) (valueAt members' referenceKey)
    else related type true (valueAt members referenceKey) (valueAt members' referenceKey)
  payload {type : NodeType} {resolved : Bool} {tags : List NodeType} {members members' : Members}
    (hrule : type.rule = .union tags) (hclosed : type.allowsReference resolved = false)
    (hkeys : HasExactKeys members taggedKeys)
    (h : related type resolved (.object members) (.object members')) :
    (valueAt members tagKey).text? = (valueAt members' tagKey).text? ∧
    ∀ tag, allowedTag? tags (valueAt members tagKey).text? = some tag →
      related tag false (valueAt members payloadKey) (valueAt members' payloadKey)
  field {type : NodeType} {resolved : Bool} {fields : List FieldRule} {members members' : Members}
    {field : FieldRule} (hrule : type.rule = .record fields)
    (hclosed : type.allowsReference resolved = false)
    (hkeys : HasExactKeys members (fields.map FieldRule.key)) (hfield : field ∈ fields)
    (h : related type resolved (.object members) (.object members')) :
    if field.isList then
      Option.Rel (List.Forall₂ (related field.type false))
        (valueAt members field.key).items? (valueAt members' field.key).items?
    else related field.type false (valueAt members field.key) (valueAt members' field.key)

/-! ## Keys alone -/

theorem SameKeys.isReference_eq {first second : Json} (h : SameKeys first second) :
    isReference first = isReference second := by
  cases first <;> cases second <;> simp only [SameKeys] at h <;> try rfl
  exact Bool.eq_iff_iff.mpr
    (Entries.has_eq_true_iff.trans ((h referenceFlagKey).trans Entries.has_eq_true_iff.symm))

theorem SameKeys.keyFault?_eq {first second : Json} (h : SameKeys first second)
    (keys : List String) : keyFault? keys first = keyFault? keys second := by
  cases first <;> cases second <;> simp only [SameKeys] at h <;> try rfl
  simp only [keyFault?, h]

/-- In two nodes with the same keys the same is collected, if it is in two objects whose keys are
right. -/
theorem collectKeyed_congr {keys : List String} {collectParts : Members → Failures}
    {first second : Json} (hsame : SameKeys first second)
    (hparts : ∀ members members', first = .object members → second = .object members' →
      HasExactKeys members keys → collectParts members = collectParts members') :
    collectKeyed keys collectParts first = collectKeyed keys collectParts second := by
  rcases collectKeyed_cases keys collectParts first with
    ⟨code, hfault, hcollect⟩ | ⟨members, rfl, hkeys, hcollect⟩
  · rw [hcollect, collectKeyed_of_keyFault? (hsame.keyFault?_eq keys ▸ hfault)]
  · have hfault := keyFault?_of_exactKeys hkeys
    rw [hsame.keyFault?_eq] at hfault
    obtain ⟨members', rfl, hkeys'⟩ := keyFault?_eq_none_iff.mp hfault
    rw [hcollect, collectKeyed_of_exactKeys hkeys']
    exact hparts members members' rfl rfl hkeys

/-! ## What is collected -/

private theorem collectItems_congr {collectItem : Json → Failures} {items items' : List Json}
    (h : List.Forall₂ (fun item item' => collectItem item = collectItem item') items items')
    (key : String) : collectItems key collectItem items = collectItems key collectItem items' := by
  have hfrom : ∀ index,
      ((items.zipIdx index).flatMap fun item => (collectItem item.1).withinIndex key item.2) =
        (items'.zipIdx index).flatMap fun item => (collectItem item.1).withinIndex key item.2 := by
    induction h with
    | nil => exact fun _ => rfl
    | cons hitem hitems ih =>
        intro index
        simp only [List.zipIdx_cons, List.flatMap_cons, hitem, ih]
  exact hfrom 0

namespace IsLikeness

variable {related : NodeRelation} (hlike : IsLikeness related)

section

variable {collectPart : NodeType → Bool → Json → Failures}
  (ih : ∀ {type resolved first second}, related type resolved first second →
    collectPart type resolved first = collectPart type resolved second)

include hlike ih

theorem collectReference_eq {type : NodeType} {first second : Json}
    (hvariable : type.isVariable = true) (h : related type false first second) :
    collectReference collectPart type first = collectReference collectPart type second := by
  have hsame := hlike.sameKeys (NodeType.rule_ne_primitive hvariable) h
  simp only [collectReference, ← hsame.isReference_eq]
  cases hnode : isReference first with
  | false => exact ih (hlike.direct hvariable hnode h)
  | true =>
      simp only [if_true]
      refine collectKeyed_congr hsame fun members members' hfirst hsecond hkeys => ?_
      subst hfirst hsecond
      obtain ⟨hflag, hcontent⟩ := hlike.reference hvariable hkeys h
      by_cases htrue : (valueAt members referenceFlagKey).text? = some "true"
      · rw [if_pos htrue] at hcontent
        simp only [htrue, hflag.mp htrue, if_true, ih hcontent]
      · have hother := mt hflag.mpr htrue
        rw [if_neg htrue] at hcontent
        simp only [htrue, hother, if_false, ih hcontent]

theorem collectUnion_eq {type : NodeType} {resolved : Bool} {tags : List NodeType}
    {first second : Json} (hrule : type.rule = .union tags)
    (hclosed : type.allowsReference resolved = false) (h : related type resolved first second) :
    collectUnion (fun part => collectPart part false) tags first =
      collectUnion (fun part => collectPart part false) tags second := by
  have hsame := hlike.sameKeys (by simp [hrule]) h
  refine collectKeyed_congr hsame fun members members' hfirst hsecond hkeys => ?_
  subst hfirst hsecond
  obtain ⟨htag, hpayload⟩ := hlike.payload hrule hclosed hkeys h
  simp only [← htag]
  cases hallowed : allowedTag? tags (valueAt members tagKey).text? with
  | none => rfl
  | some tag => simp only [ih (hpayload tag hallowed)]

theorem collectRecord_eq {type : NodeType} {resolved : Bool} {fields : List FieldRule}
    {first second : Json} (hrule : type.rule = .record fields)
    (hclosed : type.allowsReference resolved = false) (h : related type resolved first second) :
    collectRecord (fun part => collectPart part false) fields first =
      collectRecord (fun part => collectPart part false) fields second := by
  have hsame := hlike.sameKeys (by simp [hrule]) h
  refine collectKeyed_congr hsame fun members members' hfirst hsecond hkeys => ?_
  subst hfirst hsecond
  refine List.flatMap_congr fun field hfield => ?_
  have hpart := hlike.field hrule hclosed hkeys hfield h
  simp only [collectField]
  cases hlist : field.isList with
  | false =>
      simp only [hlist, Bool.false_eq_true, if_false] at hpart ⊢
      rw [ih hpart]
  | true =>
      simp only [hlist, if_true] at hpart ⊢
      generalize (valueAt members field.key).items? = items at hpart
      generalize (valueAt members' field.key).items? = items' at hpart
      cases hpart with
      | none => rfl
      | some hitems => exact collectItems_congr (hitems.imp fun _ _ => ih) field.key

end

include hlike

theorem collect_eq (allowance : Nat) {type : NodeType} {resolved : Bool} {first second : Json}
    (h : related type resolved first second) :
    collect allowance type resolved first = collect allowance type resolved second := by
  induction allowance generalizing type resolved first second with
  | zero => rfl
  | succ allowance ih =>
      rw [collect_succ, collect_succ]
      rcases NodeType.rule_cases type resolved with
        ⟨pattern, hrule⟩ | hopen | ⟨tags, hrule, hclosed⟩ | ⟨fields, hrule, hclosed⟩
      · rw [NodeType.dispatch_primitive hrule, NodeType.dispatch_primitive hrule,
          hlike.accepts_eq hrule h]
      · rw [NodeType.dispatch_reference hopen, NodeType.dispatch_reference hopen]
        obtain ⟨hvariable, rfl⟩ := NodeType.allowsReference_iff.mp hopen
        exact hlike.collectReference_eq ih hvariable h
      · rw [NodeType.dispatch_union hrule hclosed, NodeType.dispatch_union hrule hclosed]
        exact hlike.collectUnion_eq ih hrule hclosed h
      · rw [NodeType.dispatch_record hrule hclosed, NodeType.dispatch_record hrule hclosed]
        exact hlike.collectRecord_eq ih hrule hclosed h

/-! ## Outcomes -/

theorem validateSyntax_eq (options : Options) {first second : Json}
    (h : related .program false first second) :
    validateSyntax options first = validateSyntax options second := by
  rw [validateSyntax_eq_outcome, validateSyntax_eq_outcome, collectProgram, collectProgram,
    hlike.collect_eq (options.maxDepth + 1) h]

/-- No check of a node at a type that is named tells the two nodes apart. -/
theorem checkNode_eq (options : Options) {typeName : String} {resolved : Bool}
    {first second : Json} (h : ∀ type, related type resolved first second) :
    (checkNode options typeName resolved first).mapReason Violation.code =
      (checkNode options typeName resolved second).mapReason Violation.code := by
  rw [stopsAtFirst_checkNode options typeName resolved first,
    stopsAtFirst_checkNode options typeName resolved second, collectNode, collectNode]
  cases NodeType.ofName? typeName with
  | none => rfl
  | some type => exact congrArg _ (hlike.collect_eq (options.maxDepth + 1) (h type))

end IsLikeness

end TreeSyntax
