import TreeSyntax.Proofs.Node
import TreeSyntax.Check.Validate

/-!
# Collecting every failure

A check stops at its first failure.  The collecting validator goes on: a node whose own shape is
wrong gives one failure and is not entered, and any other node gives the failures of all its parts
in order.  The verdict of a check is the first failure of this list.
-/

namespace TreeSyntax

/-! ## Checks by the rule -/

theorem check_succ (allowance : Nat) (type : NodeType) (resolved : Bool) (node : Json) :
    check (allowance + 1) type resolved node =
      type.dispatch resolved (fun pattern => checkPrimitive pattern type node)
        (checkReference (check allowance) type node)
        (fun tags => checkUnion (fun part => check allowance part false) tags node)
        (fun fields => checkRecord (fun part => check allowance part false) fields node) := by
  cases hrule : type.rule with
  | primitive pattern => simp only [check, NodeType.dispatch, hrule]
  | union tags =>
      simp only [check, NodeType.dispatch, hrule]
      rfl
  | record fields =>
      simp only [check, NodeType.dispatch, hrule]
      rfl

/-! ## The collecting validator -/

abbrev Failures : Type := List (Failure ErrorCode)

namespace Failures

def within (segment : String) (failures : Failures) : Failures :=
  failures.map (Failure.within segment)

def withinIndex (key : String) (index : Nat) (failures : Failures) : Failures :=
  (failures.within (indexText index)).within key

end Failures

def collectKeyed (keys : List String) (collectParts : Members → Failures) (node : Json) :
    Failures :=
  match keyFault? keys node with
  | some code => [.here code]
  | none => collectParts (node.members?.getD [])

def collectReference (collect : NodeType → Bool → Json → Failures) (expected : NodeType)
    (node : Json) : Failures :=
  if isReference node then
    collectKeyed referenceKeys (fun members =>
      let content := valueAt members referenceKey
      if (valueAt members referenceFlagKey).text? = some "true" then
        Failures.within referenceKey (collect .integerLiteral false content)
      else Failures.within referenceKey (collect expected true content)) node
  else collect expected true node

def collectUnion (collect : NodeType → Json → Failures) (tags : List NodeType) (node : Json) :
    Failures :=
  collectKeyed taggedKeys (fun members =>
    match allowedTag? tags (valueAt members tagKey).text? with
    | none => [.here .typeNotAllowed]
    | some type => Failures.within payloadKey (collect type (valueAt members payloadKey))) node

def collectItems (key : String) (collect : Json → Failures) (items : List Json) : Failures :=
  items.zipIdx.flatMap fun item => (collect item.1).withinIndex key item.2

def collectField (collect : NodeType → Json → Failures) (members : Members) (field : FieldRule) :
    Failures :=
  let value := valueAt members field.key
  if field.isList then
    match value.items? with
    | some items => collectItems field.key (collect field.type) items
    | none => [⟨.invalidList, [field.key]⟩]
  else Failures.within field.key (collect field.type value)

def collectRecord (collect : NodeType → Json → Failures) (fields : List FieldRule)
    (node : Json) : Failures :=
  collectKeyed (fields.map FieldRule.key)
    (fun members => fields.flatMap (collectField collect members)) node

/-- All failures of a node, each part being checked whatever the others hold. -/
def collect : (allowance : Nat) → (expected : NodeType) → (resolved : Bool) → Json → Failures
  | 0, _, _, _ => [.here .tooDeep]
  | allowance + 1, expected, resolved, node =>
      match expected.rule with
      | .primitive pattern =>
          if pattern.accepts node.plainText then [] else [.here .invalidPrimitive]
      | .union tags =>
          if expected.allowsReference resolved then
            collectReference (collect allowance) expected node
          else collectUnion (fun type => collect allowance type false) tags node
      | .record fields =>
          if expected.allowsReference resolved then
            collectReference (collect allowance) expected node
          else collectRecord (fun type => collect allowance type false) fields node

def collectNode (options : Options) (typeName : String) (resolved : Bool) (node : Json) :
    Failures :=
  match NodeType.ofName? typeName with
  | none => [.here .typeNotAllowed]
  | some type => collect (options.maxDepth + 1) type resolved node

def collectProgram (options : Options) (program : Json) : Failures :=
  collect (options.maxDepth + 1) .program false program

theorem collect_succ (allowance : Nat) (type : NodeType) (resolved : Bool) (node : Json) :
    collect (allowance + 1) type resolved node =
      type.dispatch resolved
        (fun pattern => if pattern.accepts node.plainText then [] else [.here .invalidPrimitive])
        (collectReference (collect allowance) type node)
        (fun tags => collectUnion (fun part => collect allowance part false) tags node)
        (fun fields => collectRecord (fun part => collect allowance part false) fields node) := by
  cases hrule : type.rule <;> simp only [collect, NodeType.dispatch, hrule]

/-! ## Nodes with exact keys -/

section

variable {keys : List String} {collectParts : Members → Failures}

theorem collectKeyed_of_exactKeys {members : Members} (h : HasExactKeys members keys) :
    collectKeyed keys collectParts (.object members) = collectParts members := by
  simp only [collectKeyed, keyFault?_of_exactKeys h, Json.members?, Option.getD_some]

theorem collectKeyed_of_keyFault? {node : Json} {code : ErrorCode}
    (h : keyFault? keys node = some code) :
    collectKeyed keys collectParts node = [.here code] := by
  simp only [collectKeyed, h]

theorem collectKeyed_cases (keys : List String) (collectParts : Members → Failures) (node : Json) :
    (∃ code, keyFault? keys node = some code ∧
      collectKeyed keys collectParts node = [.here code]) ∨
    (∃ members, node = .object members ∧ HasExactKeys members keys ∧
      collectKeyed keys collectParts node = collectParts members) := by
  cases hfault : keyFault? keys node with
  | some code => exact .inl ⟨code, rfl, collectKeyed_of_keyFault? hfault⟩
  | none =>
      obtain ⟨members, rfl, hkeys⟩ := keyFault?_eq_none_iff.mp hfault
      exact .inr ⟨members, rfl, hkeys, collectKeyed_of_exactKeys hkeys⟩

end

/-! ## Nodes of a known shape -/

section

variable {type : NodeType} {members : Members} (allowance : Nat)

theorem collect_direct {node : Json} (hvariable : type.isVariable = true)
    (hnode : isReference node = false) :
    collect (allowance + 1) type false node = collect allowance type true node := by
  rw [collect_succ, NodeType.dispatch_variable hvariable]
  simp only [collectReference, hnode]
  rfl

theorem collect_bound {index : Json} (hvariable : type.isVariable = true)
    (hkeys : HasExactKeys members referenceKeys)
    (hflag : Entries.find? members referenceFlagKey = some (.string "true"))
    (hindex : Entries.find? members referenceKey = some index) :
    collect (allowance + 1) type false (.object members) =
      Failures.within referenceKey (collect allowance .integerLiteral false index) := by
  rw [collect_succ, NodeType.dispatch_variable hvariable]
  simp only [collectReference, isReference_of_exactKeys hkeys, if_true,
    collectKeyed_of_exactKeys hkeys, valueAt_eq hflag, valueAt_eq hindex, Json.text?]

theorem collect_inlined {flag content : Json} (hvariable : type.isVariable = true)
    (hkeys : HasExactKeys members referenceKeys)
    (hflag : Entries.find? members referenceFlagKey = some flag) (hother : flag ≠ .string "true")
    (hcontent : Entries.find? members referenceKey = some content) :
    collect (allowance + 1) type false (.object members) =
      Failures.within referenceKey (collect allowance type true content) := by
  rw [collect_succ, NodeType.dispatch_variable hvariable]
  simp only [collectReference, isReference_of_exactKeys hkeys, if_true,
    collectKeyed_of_exactKeys hkeys, valueAt_eq hflag, valueAt_eq hcontent,
    Json.text?_eq_some_iff, hother, if_false]

theorem collect_payload {resolved : Bool} {tags : List NodeType} {tag : NodeType} {content : Json}
    (hrule : type.rule = .union tags) (hclosed : type.allowsReference resolved = false)
    (hkeys : HasExactKeys members taggedKeys) (hallowed : tag ∈ tags)
    (htag : Entries.find? members tagKey = some (.string tag.name))
    (hcontent : Entries.find? members payloadKey = some content) :
    collect (allowance + 1) type resolved (.object members) =
      Failures.within payloadKey (collect allowance tag false content) := by
  rw [collect_succ, NodeType.dispatch_union hrule hclosed]
  simp only [collectUnion, collectKeyed_of_exactKeys hkeys, valueAt_eq htag, valueAt_eq hcontent,
    Json.text?, allowedTag?_eq_some_iff.mpr ⟨hallowed, rfl⟩]

theorem collect_fields {resolved : Bool} {fields : List FieldRule}
    (hrule : type.rule = .record fields) (hclosed : type.allowsReference resolved = false)
    (hkeys : HasExactKeys members (fields.map FieldRule.key)) :
    collect (allowance + 1) type resolved (.object members) =
      fields.flatMap (collectField (fun part => collect allowance part false) members) := by
  rw [collect_succ, NodeType.dispatch_record hrule hclosed, collectRecord,
    collectKeyed_of_exactKeys hkeys]

end

/-! ## The first failure -/

def andThen {κ : Type} (first second : Verdict κ) : Verdict κ :=
  match first with
  | .error failure => .error failure
  | .ok () => second

theorem checkItems_cons {κ : Type} (key : String) (check : Json → Verdict κ) (index : Nat)
    (item : Json) (items : List Json) :
    checkItems key check index (item :: items) =
      andThen ((check item).withinIndex key index) (checkItems key check (index + 1) items) := rfl

theorem checkFields_cons (check : NodeType → Json → Verdict Violation) {members : Members}
    {field : FieldRule} (hkey : field.key ∈ Entries.names members) (fields : List FieldRule) :
    checkFields check members (field :: fields) =
      andThen (checkField check field (valueAt members field.key))
        (checkFields check members fields) := by
  rw [checkFields, member_eq_ok hkey]
  simp only [bind, Except.bind]
  cases checkField check field (valueAt members field.key) <;> rfl

def Failures.verdict : Failures → Verdict ErrorCode
  | [] => .ok ()
  | failure :: _ => .error failure

def StopsAtFirst (verdict : Verdict Violation) (failures : Failures) : Prop :=
  verdict.mapReason Violation.code = failures.verdict

namespace StopsAtFirst

theorem nothing : StopsAtFirst (.ok ()) [] := rfl

theorem failing (reason : Violation) : StopsAtFirst (Checked.fail reason) [.here reason.code] :=
  rfl

theorem eq_ok_iff {verdict : Verdict Violation} {failures : Failures}
    (h : StopsAtFirst verdict failures) : verdict = .ok () ↔ failures = [] := by
  cases verdict with
  | ok value =>
      cases failures with
      | nil => simp
      | cons failure failures => cases h
  | error found =>
      cases failures with
      | nil => cases h
      | cons failure failures => simp

theorem within {verdict : Verdict Violation} {failures : Failures}
    (h : StopsAtFirst verdict failures) (segment : String) :
    StopsAtFirst (verdict.within segment) (failures.within segment) := by
  cases verdict with
  | ok value =>
      cases failures with
      | nil => rfl
      | cons failure failures => cases h
  | error found =>
      cases failures with
      | nil => cases h
      | cons failure failures =>
          obtain rfl : found.map Violation.code = failure := by
            simpa [StopsAtFirst, Failures.verdict] using h
          rfl

theorem append {first second : Verdict Violation} {before after : Failures}
    (hfirst : StopsAtFirst first before) (hsecond : StopsAtFirst second after) :
    StopsAtFirst (andThen first second) (before ++ after) := by
  cases first with
  | ok value =>
      cases before with
      | nil => exact hsecond
      | cons failure before => cases hfirst
  | error found =>
      cases before with
      | nil => cases hfirst
      | cons failure before => exact hfirst

end StopsAtFirst

private theorem stopsAtFirst_items {checkItem : Json → Verdict Violation}
    {collectItem : Json → Failures}
    (h : ∀ item, StopsAtFirst (checkItem item) (collectItem item)) (key : String)
    (items : List Json) (index : Nat) :
    StopsAtFirst (checkItems key checkItem index items)
      ((items.zipIdx index).flatMap fun item => (collectItem item.1).withinIndex key item.2) := by
  induction items generalizing index with
  | nil => exact .nothing
  | cons item items ih =>
      have hitem := ((h item).within (indexText index)).within key
      rw [checkItems_cons]
      exact hitem.append (ih (index + 1))

section

variable {checkPart : NodeType → Json → Verdict Violation}
  {collectPart : NodeType → Json → Failures}

private theorem stopsAtFirst_field
    (h : ∀ type node, StopsAtFirst (checkPart type node) (collectPart type node))
    (members : Members) (field : FieldRule) :
    StopsAtFirst (checkField checkPart field (valueAt members field.key))
      (collectField collectPart members field) := by
  simp only [checkField, collectField]
  cases field.isList with
  | false => exact (h field.type _).within field.key
  | true =>
      cases valueAt members field.key with
      | array items => exact stopsAtFirst_items (h field.type) field.key items 0
      | _ => exact (StopsAtFirst.failing (.notAList field.key)).within field.key

private theorem stopsAtFirst_fields
    (h : ∀ type node, StopsAtFirst (checkPart type node) (collectPart type node))
    {members : Members} {fields : List FieldRule}
    (hkeys : ∀ field ∈ fields, field.key ∈ Entries.names members) :
    StopsAtFirst (checkFields checkPart members fields)
      (fields.flatMap (collectField collectPart members)) := by
  induction fields with
  | nil => exact .nothing
  | cons field fields ih =>
      obtain ⟨hkey, hrest⟩ := List.forall_mem_cons.mp hkeys
      have hfield := stopsAtFirst_field h members field
      rw [checkFields_cons checkPart hkey]
      exact hfield.append (ih hrest)

private theorem stopsAtFirst_record
    (h : ∀ type node, StopsAtFirst (checkPart type node) (collectPart type node))
    (fields : List FieldRule) (node : Json) :
    StopsAtFirst (checkRecord checkPart fields node) (collectRecord collectPart fields node) := by
  rcases expectKeys_cases (fields.map FieldRule.key) node with
    ⟨members, rfl, hkeys, hok⟩ | ⟨reason, hfault, hfail⟩
  · simp only [checkRecord, hok, collectRecord, collectKeyed_of_exactKeys hkeys]
    refine stopsAtFirst_fields h fun field hfield => (hkeys field.key).mpr ?_
    exact List.mem_map_of_mem hfield
  · simp only [checkRecord, hfail, Checked.fail, collectRecord, collectKeyed_of_keyFault? hfault]
    exact .failing reason

private theorem stopsAtFirst_union
    (h : ∀ type node, StopsAtFirst (checkPart type node) (collectPart type node))
    (tags : List NodeType) (node : Json) :
    StopsAtFirst (checkUnion checkPart tags node) (collectUnion collectPart tags node) := by
  rcases Tagged.ofNode_cases node with ⟨members, rfl, hkeys, hok⟩ | ⟨reason, hfault, hfail⟩
  · simp only [checkUnion, hok, collectUnion, collectKeyed_of_exactKeys hkeys]
    cases allowedTag? tags (valueAt members tagKey).text? with
    | none => exact .failing (.tagNotAllowed _ tags)
    | some type => exact (h type _).within payloadKey
  · simp only [checkUnion, hfail, Checked.fail, collectUnion, collectKeyed_of_keyFault? hfault]
    exact .failing reason

end

private theorem stopsAtFirst_reference {checkPart : NodeType → Bool → Json → Verdict Violation}
    {collectPart : NodeType → Bool → Json → Failures}
    (h : ∀ type resolved node,
      StopsAtFirst (checkPart type resolved node) (collectPart type resolved node))
    (expected : NodeType) (node : Json) :
    StopsAtFirst (checkReference checkPart expected node)
      (collectReference collectPart expected node) := by
  rcases Reference.ofNode_cases node with
    ⟨href, hdirect⟩ | ⟨members, rfl, hkeys, hok⟩ | ⟨reason, href, hfault, hfail⟩
  · simp only [checkReference, hdirect, collectReference, href]
    exact h expected true node
  · simp only [checkReference, hok, collectReference, isReference_of_exactKeys hkeys, if_true,
      collectKeyed_of_exactKeys hkeys]
    by_cases hflag : (valueAt members referenceFlagKey).text? = some "true"
    · simp only [hflag, if_true]
      exact (h .integerLiteral false _).within referenceKey
    · simp only [hflag, if_false]
      exact (h expected true _).within referenceKey
  · simp only [checkReference, hfail, Checked.fail, collectReference, href, if_true,
      collectKeyed_of_keyFault? hfault]
    exact .failing reason

theorem stopsAtFirst_check (allowance : Nat) (expected : NodeType) (resolved : Bool) (node : Json) :
    StopsAtFirst (check allowance expected resolved node)
      (collect allowance expected resolved node) := by
  induction allowance generalizing expected resolved node with
  | zero => exact .failing (.tooDeep expected)
  | succ allowance ih =>
      rw [check_succ, collect_succ]
      rcases NodeType.rule_cases expected resolved with
        ⟨pattern, hrule⟩ | hopen | ⟨tags, hrule, hclosed⟩ | ⟨fields, hrule, hclosed⟩
      · rw [NodeType.dispatch_primitive hrule, NodeType.dispatch_primitive hrule, checkPrimitive,
          Pattern.read]
        by_cases haccepts : pattern.accepts node.plainText = true
        · rw [if_pos haccepts, if_pos haccepts]
          exact .nothing
        · rw [if_neg haccepts, if_neg haccepts]
          exact .failing (.primitiveMismatch expected.name node)
      · rw [NodeType.dispatch_reference hopen, NodeType.dispatch_reference hopen]
        exact stopsAtFirst_reference ih expected node
      · rw [NodeType.dispatch_union hrule hclosed, NodeType.dispatch_union hrule hclosed]
        exact stopsAtFirst_union (fun type => ih type false) tags node
      · rw [NodeType.dispatch_record hrule hclosed, NodeType.dispatch_record hrule hclosed]
        exact stopsAtFirst_record (fun type => ih type false) fields node

theorem stopsAtFirst_checkNode (options : Options) (typeName : String) (resolved : Bool)
    (node : Json) :
    StopsAtFirst (checkNode options typeName resolved node)
      (collectNode options typeName resolved node) := by
  simp only [checkNode, collectNode]
  cases NodeType.ofName? typeName with
  | none => exact .failing (.unknownType typeName)
  | some type => exact stopsAtFirst_check _ type resolved node

/-! ## Outcomes -/

def Failures.outcome (above : List String) : Failures → Outcome
  | [] => .valid
  | failure :: _ => .invalid failure.reason (above ++ failure.path)

@[simp] theorem Failures.outcome_nil (above : List String) :
    Failures.outcome above [] = .valid := rfl

@[simp] theorem Failures.outcome_cons (above : List String) (failure : Failure ErrorCode)
    (failures : Failures) :
    Failures.outcome above (failure :: failures) =
      .invalid failure.reason (above ++ failure.path) := rfl

theorem StopsAtFirst.outcome {verdict : Verdict Violation} {failures : Failures}
    (h : StopsAtFirst verdict failures) :
    Outcome.ofVerdict (verdict.mapReason Violation.code) = failures.outcome [] := by
  rw [h]
  cases failures <;> rfl

private theorem Failures.outcome_within (failures : Failures) (segment : String) :
    (failures.within segment).outcome [] = failures.outcome [segment] := by
  cases failures <;> rfl

@[simp] theorem Failures.isValid_outcome_iff {above : List String} {failures : Failures} :
    (failures.outcome above).isValid = true ↔ failures = [] := by
  cases failures <;> simp

theorem validateSyntax_eq_outcome (options : Options) (program : Json) :
    validateSyntax options program =
      (collectProgram options program).outcome [Outcome.rootSegment] := by
  have hcheck := stopsAtFirst_check (options.maxDepth + 1) .program false program
  rw [← Failures.outcome_within]
  exact (hcheck.within Outcome.rootSegment).outcome

/-- Fail-fast validation reports the first of all failures, and nothing when there are none. -/
theorem validation_reports_first_failure :
    (∀ (options : Options) (program : Json),
      validateSyntax options program =
        (collectProgram options program).outcome [Outcome.rootSegment]) ∧
    (∀ (typeName : String) (resolved : Bool) (node : Json),
      validateNode typeName resolved node =
        (collectNode .default typeName resolved node).outcome []) :=
  ⟨validateSyntax_eq_outcome, fun typeName resolved node =>
    (stopsAtFirst_checkNode .default typeName resolved node).outcome⟩

end TreeSyntax
