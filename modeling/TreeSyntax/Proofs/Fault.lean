import TreeSyntax.Proofs.Exhaustive
import TreeSyntax.Proofs.Position

/-!
# Faults of positions

What is wrong with the node of a position itself.  Every collected failure is a fault of a
position that the root reaches, at the path of the steps to it, or tells that a position lies
beyond the limit.
-/

namespace TreeSyntax

/-! ## Faults -/

namespace Position

/-- The keys that the node must have here.  A node that may be a reference and is none has to be
looked at once more, without that choice. -/
def requiredKeys? (position : Position) : Option (List String) :=
  if position.type.allowsReference position.resolved then
    if isReference position.node then some referenceKeys else none
  else
    match position.type.rule with
    | .primitive _ => none
    | .record fields => some (fields.map FieldRule.key)
    | .union _ => some taggedKeys

end Position

/-- What is wrong with the node of a position itself: the code, and where below the position the
node at fault lies. -/
inductive Fault : Position → ErrorCode → List String → Json → Prop
  | invalidPrimitive {position : Position} {pattern : Pattern}
      (hrule : position.type.rule = .primitive pattern)
      (hrefused : ¬ pattern.Matches position.node.plainText) :
      Fault position .invalidPrimitive [] position.node
  | invalidList {type : NodeType} {resolved : Bool} {fields : List FieldRule} {members : Members}
      {field : FieldRule} {value : Json} (hrule : type.rule = .record fields)
      (hclosed : type.allowsReference resolved = false)
      (hkeys : HasExactKeys members (fields.map FieldRule.key)) (hfield : field ∈ fields)
      (hlist : field.isList = true) (hvalue : Entries.find? members field.key = some value)
      (hother : ∀ items, value ≠ .array items) :
      Fault ⟨type, resolved, .object members⟩ .invalidList [field.key] value
  | missingKey {position : Position} {keys : List String}
      (hrequired : position.requiredKeys? = some keys)
      (hmissing : ∀ members, position.node = .object members →
        ∃ key ∈ keys, key ∉ Entries.names members) :
      Fault position .missingKey [] position.node
  | extraKey {position : Position} {keys : List String} {members : Members}
      (hrequired : position.requiredKeys? = some keys) (hnode : position.node = .object members)
      (hpresent : ∀ key ∈ keys, key ∈ Entries.names members)
      (hextra : ∃ key ∈ Entries.names members, key ∉ keys) :
      Fault position .extraKey [] position.node
  | typeNotAllowed {type : NodeType} {resolved : Bool} {tags : List NodeType} {members : Members}
      {tag : Json} (hrule : type.rule = .union tags)
      (hclosed : type.allowsReference resolved = false)
      (hkeys : HasExactKeys members taggedKeys) (htag : Entries.find? members tagKey = some tag)
      (hother : ∀ allowed ∈ tags, tag ≠ .string allowed.name) :
      Fault ⟨type, resolved, .object members⟩ .typeNotAllowed [] (.object members)

theorem Fault.of_keyFault? {position : Position} {keys : List String} {code : ErrorCode}
    (hrequired : position.requiredKeys? = some keys)
    (hfault : keyFault? keys position.node = some code) :
    Fault position code [] position.node := by
  rcases keyFault?_eq_some hfault with rfl | rfl
  · exact .missingKey hrequired (keyFault?_eq_missingKey_iff.mp hfault)
  · obtain ⟨members, hnode, hpresent, hextra⟩ := keyFault?_eq_extraKey_iff.mp hfault
    exact .extraKey hrequired hnode hpresent hextra

/-! ## Where collected failures come from -/

def Failure.below {κ : Type} (segments : List String) (failure : Failure κ) : Failure κ :=
  { failure with path := segments ++ failure.path }

@[simp] theorem Failure.reason_below {κ : Type} (segments : List String) (failure : Failure κ) :
    (failure.below segments).reason = failure.reason := rfl

@[simp] theorem Failure.path_below {κ : Type} (segments : List String) (failure : Failure κ) :
    (failure.below segments).path = segments ++ failure.path := rfl

def Originates (collectPart : NodeType → Bool → Json → Failures) (position : Position)
    (failure : Failure ErrorCode) : Prop :=
  (∃ node, Fault position failure.reason failure.path node) ∨
  ∃ segments next inner, Step position segments next ∧
    inner ∈ collectPart next.type next.resolved next.node ∧ failure = inner.below segments

section

variable {collectPart : NodeType → Bool → Json → Failures} {failure : Failure ErrorCode}

theorem mem_collectKeyed {keys : List String} {collectParts : Members → Failures} {node : Json}
    (h : failure ∈ collectKeyed keys collectParts node) :
    (∃ code, keyFault? keys node = some code ∧ failure = .here code) ∨
    (∃ members, node = .object members ∧ HasExactKeys members keys ∧
      failure ∈ collectParts members) := by
  rcases collectKeyed_cases keys collectParts node with
    ⟨code, hfault, hcollect⟩ | ⟨members, rfl, hkeys, hcollect⟩
  · rw [hcollect] at h
    exact .inl ⟨code, hfault, List.mem_singleton.mp h⟩
  · rw [hcollect] at h
    exact .inr ⟨members, rfl, hkeys, h⟩

private theorem originates_of_mem_collectReference {type : NodeType} {node : Json}
    (hvariable : type.isVariable = true)
    (h : failure ∈ collectReference collectPart type node) :
    Originates collectPart ⟨type, false, node⟩ failure := by
  have hopen := NodeType.allowsReference_iff.mpr ⟨hvariable, rfl⟩
  simp only [collectReference] at h
  cases href : isReference node with
  | false =>
      simp only [href] at h
      exact .inr ⟨[], ⟨type, true, node⟩, failure, .direct hvariable href, h, rfl⟩
  | true =>
      simp only [href, if_true] at h
      rcases mem_collectKeyed h with ⟨code, hfault, rfl⟩ | ⟨members, rfl, hkeys, hmem⟩
      · refine .inl ⟨node, .of_keyFault? ?_ hfault⟩
        simp [Position.requiredKeys?, hopen, href]
      · have hstep := Step.of_referenceKeys hvariable hkeys
        by_cases htrue : (valueAt members referenceFlagKey).text? = some "true"
        · simp only [htrue, if_true, Failures.within, List.mem_map] at hmem hstep
          obtain ⟨inner, hinner, rfl⟩ := hmem
          exact .inr ⟨_, _, inner, hstep, hinner, rfl⟩
        · simp only [htrue, if_false, Failures.within, List.mem_map] at hmem hstep
          obtain ⟨inner, hinner, rfl⟩ := hmem
          exact .inr ⟨_, _, inner, hstep, hinner, rfl⟩

private theorem originates_of_mem_collectUnion {type : NodeType} {resolved : Bool}
    {tags : List NodeType} {node : Json} (hrule : type.rule = .union tags)
    (hclosed : type.allowsReference resolved = false)
    (h : failure ∈ collectUnion (fun type => collectPart type false) tags node) :
    Originates collectPart ⟨type, resolved, node⟩ failure := by
  rcases mem_collectKeyed h with ⟨code, hfault, rfl⟩ | ⟨members, rfl, hkeys, hmem⟩
  · refine .inl ⟨node, .of_keyFault? ?_ hfault⟩
    simp [Position.requiredKeys?, hclosed, hrule]
  · cases hallowed : allowedTag? tags (valueAt members tagKey).text? with
    | none =>
        simp only [hallowed, List.mem_singleton] at hmem
        subst hmem
        have htag := find?_eq_valueAt ((hkeys tagKey).mpr (by decide))
        refine .inl ⟨_, .typeNotAllowed hrule hclosed hkeys htag fun allowed hin heq => ?_⟩
        exact allowedTag?_eq_none_iff.mp hallowed allowed hin (Json.text?_eq_some_iff.mpr heq)
    | some tag =>
        simp only [hallowed, Failures.within, List.mem_map] at hmem
        obtain ⟨inner, hinner, rfl⟩ := hmem
        exact .inr ⟨_, _, inner, .of_allowedTag? hrule hclosed hkeys hallowed, hinner, rfl⟩

theorem mem_collectItems {key : String} {collectItem : Json → Failures} {items : List Json}
    (h : failure ∈ collectItems key collectItem items) :
    ∃ index item inner, items[index]? = some item ∧ inner ∈ collectItem item ∧
      failure = inner.below [key, indexText index] := by
  simp only [collectItems, List.mem_flatMap, Failures.withinIndex, Failures.within,
    List.mem_map] at h
  obtain ⟨⟨item, index⟩, hitem, _, ⟨inner, hinner, rfl⟩, rfl⟩ := h
  exact ⟨index, item, inner, List.mk_mem_zipIdx_iff_getElem?.mp hitem, hinner, rfl⟩

private theorem originates_of_mem_collectRecord {type : NodeType} {resolved : Bool}
    {fields : List FieldRule} {node : Json} (hrule : type.rule = .record fields)
    (hclosed : type.allowsReference resolved = false)
    (h : failure ∈ collectRecord (fun type => collectPart type false) fields node) :
    Originates collectPart ⟨type, resolved, node⟩ failure := by
  rcases mem_collectKeyed h with ⟨code, hfault, rfl⟩ | ⟨members, rfl, hkeys, hmem⟩
  · refine .inl ⟨node, .of_keyFault? ?_ hfault⟩
    simp [Position.requiredKeys?, hclosed, hrule]
  · obtain ⟨field, hfield, hmem⟩ := List.mem_flatMap.mp hmem
    simp only [collectField] at hmem
    cases hlist : field.isList with
    | false =>
        simp only [hlist, Failures.within] at hmem
        obtain ⟨inner, hinner, rfl⟩ := List.mem_map.mp hmem
        exact .inr ⟨_, _, inner, .of_field hrule hclosed hkeys hfield hlist, hinner, rfl⟩
    | true =>
        simp only [hlist, if_true] at hmem
        cases hitems : (valueAt members field.key).items? with
        | none =>
            simp only [hitems, List.mem_singleton] at hmem
            subst hmem
            have hvalue := find?_eq_valueAt ((hkeys field.key).mpr (List.mem_map_of_mem hfield))
            refine .inl ⟨_, .invalidList hrule hclosed hkeys hfield hlist hvalue ?_⟩
            intro items heq
            simp [heq, Json.items?] at hitems
        | some items =>
            simp only [hitems] at hmem
            have hvalue := Json.items?_eq_some_iff.mp hitems
            obtain ⟨index, item, inner, hitem, hinner, rfl⟩ := mem_collectItems hmem
            have hstep := Step.of_element hrule hclosed hkeys hfield hlist hvalue hitem
            exact .inr ⟨_, _, inner, hstep, hinner, rfl⟩

end

private theorem originates_of_mem_collect {allowance : Nat} {position : Position}
    {failure : Failure ErrorCode}
    (h : failure ∈ collect (allowance + 1) position.type position.resolved position.node) :
    Originates (collect allowance) position failure := by
  obtain ⟨type, resolved, node⟩ := position
  rcases NodeType.rule_cases type resolved with
    ⟨pattern, hrule⟩ | hopen | ⟨tags, hrule, hclosed⟩ | ⟨fields, hrule, hclosed⟩
  · rw [collect_succ, NodeType.dispatch_primitive hrule] at h
    split at h
    · cases h
    next hrefused =>
      obtain rfl := List.mem_singleton.mp h
      exact .inl ⟨node, .invalidPrimitive hrule (hrefused ∘ Pattern.accepts_iff_matches.mpr)⟩
  · rw [collect_succ, NodeType.dispatch_reference hopen] at h
    obtain ⟨hvariable, rfl⟩ := NodeType.allowsReference_iff.mp hopen
    exact originates_of_mem_collectReference hvariable h
  · rw [collect_succ, NodeType.dispatch_union hrule hclosed] at h
    exact originates_of_mem_collectUnion hrule hclosed h
  · rw [collect_succ, NodeType.dispatch_record hrule hclosed] at h
    exact originates_of_mem_collectRecord hrule hclosed h

/-- A node in a tree goes wrong with a code: some position that the root reaches within the limit
has the fault, or a position lies one step beyond the limit. -/
inductive Offends (limit : Nat) (root : Position) : ErrorCode → List String → Json → Prop
  | fault {path below : List String} {steps : Nat} {reached : Position} {code : ErrorCode}
      {node : Json} (hreaches : Reaches root path steps reached) (hsteps : steps ≤ limit)
      (hfault : Fault reached code below node) :
      Offends limit root code (path ++ below) node
  | tooDeep {path : List String} {reached : Position}
      (hreaches : Reaches root path (limit + 1) reached) :
      Offends limit root .tooDeep path reached.node

theorem Offends.step {limit : Nat} {first second : Position} {segments path : List String}
    {code : ErrorCode} {node : Json} (hstep : Step first segments second)
    (h : Offends limit second code path node) :
    Offends (limit + 1) first code (segments ++ path) node := by
  cases h with
  | fault hreaches hsteps hfault =>
      rw [← List.append_assoc]
      exact .fault (.step hstep hreaches) (Nat.succ_le_succ hsteps) hfault
  | tooDeep hreaches => exact .tooDeep (.step hstep hreaches)

theorem offends_of_mem_collect {limit : Nat} {root : Position} {failure : Failure ErrorCode}
    (h : failure ∈ collect (limit + 1) root.type root.resolved root.node) :
    ∃ node, Offends limit root failure.reason failure.path node := by
  induction limit generalizing root failure with
  | zero =>
      rcases originates_of_mem_collect h with
        ⟨node, hfault⟩ | ⟨segments, next, inner, hstep, hinner, rfl⟩
      · exact ⟨node, .fault (.refl root) (Nat.le_refl 0) hfault⟩
      · obtain rfl := List.mem_singleton.mp hinner
        exact ⟨next.node, .tooDeep (.step hstep (.refl next))⟩
  | succ limit ih =>
      rcases originates_of_mem_collect h with
        ⟨node, hfault⟩ | ⟨segments, next, inner, hstep, hinner, rfl⟩
      · exact ⟨node, .fault (.refl root) (Nat.zero_le _) hfault⟩
      · obtain ⟨node, hnode⟩ := ih hinner
        exact ⟨node, hnode.step hstep⟩

end TreeSyntax
