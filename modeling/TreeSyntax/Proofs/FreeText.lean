import TreeSyntax.Proofs.Likeness
import TreeSyntax.Proofs.Position

/-!
# Free text and flags

Nothing is asked of a node of free text, and of the flag of a reference only whether it is the word
`true`.  Values that differ in nothing else get the same outcome, at the same path.
-/

namespace TreeSyntax

/-! ## Roles of members -/

inductive Role where
  | fixed
  | flag
  | node (type : NodeType) (resolved : Bool)
  | nodes (type : NodeType)
  deriving DecidableEq, Repr

def referenceRole (type : NodeType) (members : Members) (key : String) : Role :=
  if key = referenceFlagKey then .flag
  else if key = referenceKey then
    if (valueAt members referenceFlagKey).text? = some "true" then .node .integerLiteral false
    else .node type true
  else .fixed

def payloadRole (tags : List NodeType) (members : Members) (key : String) : Role :=
  if key = payloadKey then
    match allowedTag? tags (valueAt members tagKey).text? with
    | some tag => .node tag false
    | none => .fixed
  else .fixed

def fieldRole (fields : List FieldRule) (key : String) : Role :=
  match fields.find? fun field => field.key == key with
  | some field => if field.isList then .nodes field.type else .node field.type false
  | none => .fixed

/-- The role of a member does not depend on whether the keys of the object are right. -/
def roleIn (type : NodeType) (resolved : Bool) (members : Members) (key : String) : Role :=
  if type.allowsReference resolved && isReference (.object members) then
    referenceRole type members key
  else
    match type.rule with
    | .primitive _ => .fixed
    | .union tags => payloadRole tags members key
    | .record fields => fieldRole fields key

/-! ## Variants -/

mutual

/-- Two values of which the same is expected, and which are equal but for nodes of free text and
for flags that are not the word `true`. -/
inductive Variant : NodeType → Bool → Json → Json → Prop
  | same (type : NodeType) (resolved : Bool) (node : Json) : Variant type resolved node node
  | freeText (resolved : Bool) (first second : Json) :
      Variant .stringLiteral resolved first second
  | object {type : NodeType} {resolved : Bool} {members members' : Members}
      (hmembers : VariantMembers (roleIn type resolved members) members members') :
      Variant type resolved (.object members) (.object members')

inductive VariantMembers : (String → Role) → Members → Members → Prop
  | nil {roleOf : String → Role} : VariantMembers roleOf [] []
  | cons {roleOf : String → Role} {key : String} {value value' : Json}
      {members members' : Members} (hvalue : VariantValue (roleOf key) value value')
      (hmembers : VariantMembers roleOf members members') :
      VariantMembers roleOf ((key, value) :: members) ((key, value') :: members')

inductive VariantValue : Role → Json → Json → Prop
  | same {role : Role} (value : Json) : VariantValue role value value
  | flag {first second : Json} (hfirst : first ≠ .string "true")
      (hsecond : second ≠ .string "true") : VariantValue .flag first second
  | node {type : NodeType} {resolved : Bool} {first second : Json}
      (hnode : Variant type resolved first second) : VariantValue (.node type resolved) first second
  | nodes {type : NodeType} {items items' : List Json} (hitems : VariantItems type items items') :
      VariantValue (.nodes type) (.array items) (.array items')

inductive VariantItems : NodeType → List Json → List Json → Prop
  | nil {type : NodeType} : VariantItems type [] []
  | cons {type : NodeType} {item item' : Json} {items items' : List Json}
      (hitem : Variant type false item item') (hitems : VariantItems type items items') :
      VariantItems type (item :: items) (item' :: items')

end

private theorem VariantItems.forall₂ {type : NodeType} {items items' : List Json}
    (h : VariantItems type items items') : List.Forall₂ (Variant type false) items items' := by
  induction items generalizing items' with
  | nil =>
      cases h
      exact .nil
  | cons item items ih =>
      cases h with
      | cons hitem hitems => exact .cons hitem (ih hitems)

namespace VariantMembers

variable {roleOf : String → Role} {members members' : Members}

theorem names_eq (h : VariantMembers roleOf members members') :
    Entries.names members = Entries.names members' := by
  induction members generalizing members' with
  | nil =>
      cases h
      rfl
  | cons member members ih =>
      cases h with
      | cons hvalue hmembers => exact congrArg (_ :: ·) (ih hmembers)

theorem valueAt (h : VariantMembers roleOf members members') (key : String) :
    VariantValue (roleOf key) (valueAt members key) (TreeSyntax.valueAt members' key) := by
  induction members generalizing members' with
  | nil =>
      cases h
      exact .same _
  | cons member members ih =>
      cases h with
      | @cons _ name value value' _ members' hvalue hmembers =>
          simp only [TreeSyntax.valueAt, Entries.find?, List.lookup_cons] at ih ⊢
          cases hname : key == name with
          | true => exact eq_of_beq hname ▸ hvalue
          | false => exact ih hmembers

end VariantMembers

namespace VariantValue

variable {first second : Json}

theorem eq_of_fixed (h : VariantValue .fixed first second) : first = second := by
  cases h
  rfl

theorem isTrue_iff (h : VariantValue .flag first second) :
    first.text? = some "true" ↔ second.text? = some "true" := by
  cases h with
  | same => exact Iff.rfl
  | flag hfirst hsecond => simp [hfirst, hsecond]

theorem variant {type : NodeType} {resolved : Bool}
    (h : VariantValue (.node type resolved) first second) :
    Variant type resolved first second := by
  cases h with
  | same => exact .same type resolved first
  | node hnode => exact hnode

theorem items? {type : NodeType} (h : VariantValue (.nodes type) first second) :
    Option.Rel (List.Forall₂ (Variant type false)) first.items? second.items? := by
  cases h with
  | same =>
      cases first.items? with
      | none => exact .none
      | some items => exact .some (List.forall₂_same.mpr fun item _ => .same type false item)
  | nodes hitems => exact .some hitems.forall₂

end VariantValue

/-! ## The roles of known members -/

private theorem fieldRole_of_mem {type : NodeType} {fields : List FieldRule} {field : FieldRule}
    (hrule : type.rule = .record fields) (hfield : field ∈ fields) :
    fieldRole fields field.key =
      if field.isList then .nodes field.type else .node field.type false := by
  cases hfind : fields.find? fun other => other.key == field.key with
  | none => simpa using List.find?_eq_none.mp hfind field hfield
  | some other =>
      have hkey : other.key = field.key := by simpa using List.find?_some hfind
      have hmem := List.mem_of_find?_eq_some hfind
      obtain rfl := NodeType.field_eq_of_key_eq hrule hrule hmem hfield hkey
      simp only [fieldRole, hfind]

section

variable {type : NodeType} {resolved : Bool} {members : Members}

private theorem roleIn_of_reference (hvariable : type.isVariable = true)
    (hkeys : HasExactKeys members referenceKeys) :
    roleIn type false members = referenceRole type members := by
  funext key
  simp [roleIn, NodeType.allowsReference, hvariable, isReference_of_exactKeys hkeys]

private theorem roleIn_of_not_isReference (hnode : isReference (.object members) = false) :
    roleIn type false members = roleIn type true members := by
  funext key
  simp [roleIn, NodeType.allowsReference, hnode]

private theorem roleIn_of_union {tags : List NodeType} (hrule : type.rule = .union tags)
    (hclosed : type.allowsReference resolved = false) :
    roleIn type resolved members = payloadRole tags members := by
  funext key
  simp [roleIn, hclosed, hrule]

private theorem roleIn_of_record {fields : List FieldRule} (hrule : type.rule = .record fields)
    (hclosed : type.allowsReference resolved = false) :
    roleIn type resolved members = fieldRole fields := by
  funext key
  simp [roleIn, hclosed, hrule]

end

/-! ## Checks -/

private theorem isLikeness_variant : IsLikeness Variant where
  accepts_eq {type resolved pattern first second} hrule h := by
    cases h with
    | same => rfl
    | freeText =>
        obtain rfl := Rule.primitive.inj hrule
        rfl
    | object hmembers => rfl
  sameKeys {type resolved first second} hrule h := by
    cases h with
    | same =>
        cases first <;> simp [SameKeys]
    | freeText => exact absurd rfl (hrule .anything)
    | object hmembers =>
        intro key
        rw [hmembers.names_eq]
  direct {type first second} hvariable hnode h := by
    cases h with
    | same => exact .same type true first
    | freeText => cases hvariable
    | object hmembers =>
        rw [roleIn_of_not_isReference hnode] at hmembers
        exact .object hmembers
  reference {type members members'} hvariable hkeys h := by
    cases h with
    | same => exact ⟨Iff.rfl, by split <;> exact .same _ _ _⟩
    | freeText => cases hvariable
    | object hmembers =>
        rw [roleIn_of_reference hvariable hkeys] at hmembers
        refine ⟨(hmembers.valueAt referenceFlagKey).isTrue_iff, ?_⟩
        have hcontent := hmembers.valueAt referenceKey
        have hother : referenceKey ≠ referenceFlagKey := by decide
        simp only [referenceRole, hother, if_false, if_true] at hcontent
        split at hcontent
        next htrue => exact if_pos htrue ▸ hcontent.variant
        next htrue => exact if_neg htrue ▸ hcontent.variant
  payload {type resolved tags members members'} hrule hclosed hkeys h := by
    cases h with
    | same => exact ⟨rfl, fun tag _ => .same tag false _⟩
    | freeText => cases hrule
    | object hmembers =>
        rw [roleIn_of_union hrule hclosed] at hmembers
        have hother : tagKey ≠ payloadKey := by decide
        have htag := hmembers.valueAt tagKey
        have hcontent := hmembers.valueAt payloadKey
        simp only [payloadRole, hother, if_false, if_true] at htag hcontent
        refine ⟨congrArg Json.text? htag.eq_of_fixed, fun tag hallowed => ?_⟩
        simp only [hallowed] at hcontent
        exact hcontent.variant
  field {type resolved fields members members' field} hrule hclosed hkeys hfield h := by
    have hvalue : VariantValue (fieldRole fields field.key) (valueAt members field.key)
        (valueAt members' field.key) := by
      cases h with
      | same => exact .same _
      | freeText => cases hrule
      | object hmembers =>
          rw [roleIn_of_record hrule hclosed] at hmembers
          exact hmembers.valueAt field.key
    rw [fieldRole_of_mem hrule hfield] at hvalue
    cases hlist : field.isList with
    | false =>
        simp only [hlist, Bool.false_eq_true, if_false] at hvalue ⊢
        exact hvalue.variant
    | true =>
        simp only [hlist, if_true] at hvalue ⊢
        exact hvalue.items?

/-- Programs that are equal but for free text and for flags that are not the word `true` get the
same outcome, whether they are valid or not. -/
theorem free_text_and_flags_never_matter {first second : Json}
    (h : Variant .program false first second) (options : Options) :
    validateSyntax options first = validateSyntax options second :=
  isLikeness_variant.validateSyntax_eq options h

def emptyInPlace (id flag : Json) : Json :=
  .object [("functions", .array [.object [
    ("id", id), ("function", .object [
      ("isVariableReference", flag), ("reference", .object [])])]])]

private theorem emptyInPlace_variant {id id' flag flag' : Json} (hflag : flag ≠ .string "true")
    (hflag' : flag' ≠ .string "true") :
    Variant .program false (emptyInPlace id flag) (emptyInPlace id' flag') := by
  have hfunction : Variant .function false
      (.object [("isVariableReference", flag), ("reference", .object [])])
      (.object [("isVariableReference", flag'), ("reference", .object [])]) :=
    .object (.cons (.flag hflag hflag') (.cons (.same _) .nil))
  have hid : Variant .stringLiteral false id id' := .freeText false id id'
  have hdefinition : Variant .functionDefinition false
      (.object [("id", id), ("function", .object [
        ("isVariableReference", flag), ("reference", .object [])])])
      (.object [("id", id'), ("function", .object [
        ("isVariableReference", flag'), ("reference", .object [])])]) :=
    .object (.cons (.node hid) (.cons (.node hfunction) .nil))
  exact .object (.cons (.nodes (.cons hdefinition .nil)) .nil)

theorem emptyInPlace_same_outcome :
    Variant .program false (emptyInPlace (.string "f") (.string "false"))
      (emptyInPlace (.object [("isVariableReference", .array [.null])]) .null) ∧
    validateSyntax .default
        (emptyInPlace (.object [("isVariableReference", .array [.null])]) .null) =
      .invalid .missingKey ["program", "functions", "0", "function", "reference"] := by
  have hvariant : Variant .program false (emptyInPlace (.string "f") (.string "false"))
      (emptyInPlace (.object [("isVariableReference", .array [.null])]) .null) :=
    emptyInPlace_variant (by simp) nofun
  refine ⟨hvariant, ?_⟩
  rw [← free_text_and_flags_never_matter hvariant]
  decide

end TreeSyntax
