import TreeSyntax.Check.Basic

/-!
# Nodes with exact keys

An object is read as a node only when its keys are exactly the ones asked for.  What is wrong with
the keys otherwise depends on the keys alone, and once they are right every later look-up of one
of them succeeds.
-/

namespace TreeSyntax

/-! ## Names and values of entries -/

namespace Entries

variable {α : Type}

@[simp] theorem has_eq_true_iff {entries : Entries α} {name : String} :
    has entries name = true ↔ name ∈ names entries := by
  simp [has, names]

@[simp] theorem find?_isSome_iff {entries : Entries α} {name : String} :
    (find? entries name).isSome = true ↔ name ∈ names entries := by
  simp only [find?, List.lookup_isSome_iff, names, List.mem_map]
  constructor
  · rintro ⟨entry, hentry, heq⟩
    exact ⟨entry, hentry, (eq_of_beq heq).symm⟩
  · rintro ⟨entry, hentry, rfl⟩
    exact ⟨entry, hentry, beq_self_eq_true _⟩

theorem exists_find?_of_mem {entries : Entries α} {name : String} (h : name ∈ names entries) :
    ∃ value, find? entries name = some value :=
  Option.isSome_iff_exists.mp (find?_isSome_iff.mpr h)

theorem mem_of_find? {entries : Entries α} {name : String} {value : α}
    (h : find? entries name = some value) : (name, value) ∈ entries := by
  obtain ⟨before, after, rfl, -⟩ := List.lookup_eq_some_iff.mp h
  exact List.mem_append_right before List.mem_cons_self

end Entries

def valueAt (members : Members) (key : String) : Json :=
  (Entries.find? members key).getD .null

theorem find?_eq_valueAt {members : Members} {key : String} (h : key ∈ Entries.names members) :
    Entries.find? members key = some (valueAt members key) := by
  obtain ⟨value, hvalue⟩ := Entries.exists_find?_of_mem h
  simp [valueAt, hvalue]

theorem valueAt_eq {members : Members} {key : String} {value : Json}
    (h : Entries.find? members key = some value) : valueAt members key = value := by
  simp [valueAt, h]

theorem member_eq_ok {members : Members} {key : String} (h : key ∈ Entries.names members) :
    member members key = .ok (valueAt members key) := by
  simp [member, find?_eq_valueAt h]

/-! ## Patterns -/

inductive Pattern.Matches : Pattern → String → Prop
  | anything (text : String) : Matches .anything text
  | digits {text : String} (hnonempty : text.toList ≠ [])
      (hdigits : ∀ character ∈ text.toList, '0' ≤ character ∧ character ≤ '9') :
      Matches .digits text
  | oneOf {words : List String} {word : String} (hword : word ∈ words) :
      Matches (.oneOf words) word

theorem Pattern.accepts_iff_matches {pattern : Pattern} {text : String} :
    pattern.accepts text = true ↔ pattern.Matches text := by
  cases pattern with
  | anything => exact ⟨fun _ => .anything text, fun _ => rfl⟩
  | digits =>
      simp only [accepts, isDigit, Bool.and_eq_true, Bool.not_eq_true', List.isEmpty_eq_false_iff,
        List.all_eq_true, decide_eq_true_eq]
      constructor
      · rintro ⟨hnonempty, hdigits⟩
        exact .digits hnonempty hdigits
      · intro h
        cases h with
        | digits hnonempty hdigits => exact ⟨hnonempty, hdigits⟩
  | oneOf words =>
      simp only [accepts, List.contains_iff_mem]
      constructor
      · exact .oneOf
      · intro h
        cases h with
        | oneOf hword => exact hword

/-! ## Exact keys -/

def HasExactKeys (members : Members) (keys : List String) : Prop :=
  ∀ key, key ∈ Entries.names members ↔ key ∈ keys

/-- What is wrong with the keys of a node that should have the given ones.  A missing key comes
before an extra one. -/
def keyFault? (keys : List String) : Json → Option ErrorCode
  | .object members =>
      if ∀ key ∈ keys, key ∈ Entries.names members then
        if ∀ key ∈ Entries.names members, key ∈ keys then none else some .extraKey
      else some .missingKey
  | _ => some .missingKey

theorem keyFault?_eq_none_iff {keys : List String} {node : Json} :
    keyFault? keys node = none ↔
      ∃ members, node = .object members ∧ HasExactKeys members keys := by
  cases node with
  | object members =>
      simp only [keyFault?, Json.object.injEq, exists_eq_left', HasExactKeys]
      grind
  | _ => simp [keyFault?]

theorem keyFault?_of_exactKeys {members : Members} {keys : List String}
    (h : HasExactKeys members keys) : keyFault? keys (.object members) = none :=
  keyFault?_eq_none_iff.mpr ⟨members, rfl, h⟩

theorem keyFault?_eq_missingKey_iff {keys : List String} {node : Json} :
    keyFault? keys node = some .missingKey ↔
      ∀ members, node = .object members → ∃ key ∈ keys, key ∉ Entries.names members := by
  cases node with
  | object members =>
      simp only [keyFault?, Json.object.injEq, forall_eq']
      grind
  | _ => simp [keyFault?]

theorem keyFault?_eq_extraKey_iff {keys : List String} {node : Json} :
    keyFault? keys node = some .extraKey ↔
      ∃ members, node = .object members ∧ (∀ key ∈ keys, key ∈ Entries.names members) ∧
        ∃ key ∈ Entries.names members, key ∉ keys := by
  cases node with
  | object members =>
      simp only [keyFault?, Json.object.injEq, exists_eq_left']
      grind
  | _ => simp [keyFault?]

theorem keyFault?_eq_some {keys : List String} {node : Json} {code : ErrorCode}
    (h : keyFault? keys node = some code) : code = .missingKey ∨ code = .extraKey := by
  cases node with
  | object members =>
      simp only [keyFault?] at h
      grind
  | _ => exact .inl (by simpa [keyFault?] using h.symm)

theorem expectKeys_cases (keys : List String) (node : Json) :
    (∃ members, node = .object members ∧ HasExactKeys members keys ∧
      expectKeys keys node = .ok members) ∨
    (∃ reason : Violation, keyFault? keys node = some reason.code ∧
      expectKeys keys node = Checked.fail reason) := by
  cases node with
  | object members =>
      cases hmissing : keys.find? fun key => !Entries.has members key with
      | some missing =>
          have habsent := List.find?_some hmissing
          have hmem := List.mem_of_find?_eq_some hmissing
          refine .inr ⟨.missingKey missing, ?_, by simp [expectKeys, hmissing]⟩
          rw [Violation.code, keyFault?_eq_missingKey_iff]
          rintro _ ⟨⟩
          refine ⟨missing, hmem, fun h => ?_⟩
          simp [Entries.has_eq_true_iff.mpr h] at habsent
      | none =>
          have hpresent : ∀ key ∈ keys, key ∈ Entries.names members := by
            simpa using hmissing
          cases hextra : (Entries.names members).find? fun key => !keys.contains key with
          | some extra =>
              have hunknown := List.find?_some hextra
              have hmem := List.mem_of_find?_eq_some hextra
              refine .inr ⟨.extraKey extra, ?_, by simp only [expectKeys, hmissing, hextra]⟩
              rw [Violation.code, keyFault?_eq_extraKey_iff]
              exact ⟨members, rfl, hpresent, extra, hmem, by simpa using hunknown⟩
          | none =>
              have hknown : ∀ key ∈ Entries.names members, key ∈ keys := by
                simpa using hextra
              refine .inl ⟨members, rfl, fun key => ⟨hknown key, hpresent key⟩, ?_⟩
              simp only [expectKeys, hmissing, hextra]
  | _ => exact .inr ⟨.notAnObject _, rfl, rfl⟩

theorem expectKeys_of_exactKeys {keys : List String} {members : Members}
    (h : HasExactKeys members keys) : expectKeys keys (.object members) = .ok members := by
  rcases expectKeys_cases keys (.object members) with
    ⟨members', hnode, -, hok⟩ | ⟨reason, hfault, -⟩
  · obtain rfl := Json.object.inj hnode
    exact hok
  · rw [keyFault?_of_exactKeys h] at hfault
    cases hfault

/-! ## References and tagged nodes -/

@[simp] theorem Json.text?_eq_some_iff {node : Json} {text : String} :
    node.text? = some text ↔ node = .string text := by
  cases node <;> simp [Json.text?]

@[simp] theorem Json.items?_eq_some_iff {node : Json} {items : List Json} :
    node.items? = some items ↔ node = .array items := by
  cases node <;> simp [Json.items?]

theorem NodeType.name_injective {first second : NodeType} (h : first.name = second.name) :
    first = second := by
  have hfirst := NodeType.ofName?_name first
  rw [h, NodeType.ofName?_name] at hfirst
  exact (Option.some.inj hfirst).symm

theorem allowedTag?_eq_some_iff {tags : List NodeType} {tag : Option String} {type : NodeType} :
    allowedTag? tags tag = some type ↔ type ∈ tags ∧ tag = some type.name := by
  cases tag with
  | none => simp [allowedTag?]
  | some name =>
      simp only [allowedTag?, Option.bind_some, Option.some.injEq]
      constructor
      · intro h
        have hname : type.name = name := by simpa using List.find?_some h
        exact ⟨List.mem_of_find?_eq_some h, hname.symm⟩
      · rintro ⟨hmem, rfl⟩
        cases hfind : tags.find? fun other => other.name == type.name with
        | none => simpa using List.find?_eq_none.mp hfind type hmem
        | some other =>
            exact congrArg some (NodeType.name_injective (by simpa using List.find?_some hfind))

theorem allowedTag?_eq_none_iff {tags : List NodeType} {tag : Option String} :
    allowedTag? tags tag = none ↔ ∀ type ∈ tags, tag ≠ some type.name := by
  constructor
  · intro h type hmem htag
    rw [allowedTag?_eq_some_iff.mpr ⟨hmem, htag⟩] at h
    cases h
  · intro h
    refine Option.eq_none_iff_forall_ne_some.mpr fun type hsome => ?_
    obtain ⟨hmem, htag⟩ := allowedTag?_eq_some_iff.mp hsome
    exact h type hmem htag

def referenceKeys : List String := [referenceFlagKey, referenceKey]

def taggedKeys : List String := [tagKey, payloadKey]

def referenceNode (flag content : Json) : Json :=
  .object [(referenceFlagKey, flag), (referenceKey, content)]

theorem isReference_of_exactKeys {members : Members} (h : HasExactKeys members referenceKeys) :
    isReference (.object members) = true :=
  Entries.has_eq_true_iff.mpr ((h referenceFlagKey).mpr (by decide))

theorem isReference_of_notMem {members : Members} {keys : List String}
    (h : HasExactKeys members keys) (hkeys : referenceFlagKey ∉ keys) :
    isReference (.object members) = false := by
  rw [← Bool.not_eq_true]
  intro hnode
  exact hkeys ((h referenceFlagKey).mp (Entries.has_eq_true_iff.mp hnode))

theorem Reference.ofNode_of_not_isReference {node : Json} (h : isReference node = false) :
    Reference.ofNode node = .ok (.direct node) := by
  simp only [Reference.ofNode, h, Bool.false_eq_true, if_false]
  rfl

theorem Reference.ofNode_cases (node : Json) :
    (isReference node = false ∧ Reference.ofNode node = .ok (.direct node)) ∨
    (∃ members, node = .object members ∧ HasExactKeys members referenceKeys ∧
      Reference.ofNode node =
        .ok (if (valueAt members referenceFlagKey).text? = some "true"
          then .bound (valueAt members referenceKey)
          else .inlined (valueAt members referenceKey))) ∨
    (∃ reason : Violation, isReference node = true ∧
      keyFault? referenceKeys node = some reason.code ∧
      Reference.ofNode node = Checked.fail reason) := by
  cases href : isReference node with
  | false => exact .inl ⟨rfl, Reference.ofNode_of_not_isReference href⟩
  | true =>
      refine .inr ?_
      rcases expectKeys_cases referenceKeys node with
        ⟨members, rfl, hkeys, hok⟩ | ⟨reason, hfault, hfail⟩
      · refine .inl ⟨members, rfl, hkeys, ?_⟩
        have hflag := member_eq_ok ((hkeys referenceFlagKey).mpr (by decide))
        have hcontent := member_eq_ok ((hkeys referenceKey).mpr (by decide))
        rw [referenceKeys] at hok
        simp only [Reference.ofNode, href, if_true, hok, hflag, hcontent, bind, Except.bind]
        split <;> rfl
      · refine .inr ⟨reason, rfl, hfault, ?_⟩
        rw [referenceKeys] at hfail
        simp only [Reference.ofNode, href, if_true, hfail]
        rfl

theorem Reference.exists_of_ofNode_eq_error {node : Json} {failure : Failure Violation}
    (h : Reference.ofNode node = .error failure) :
    ∃ reason, failure = .here reason ∧ keyFault? referenceKeys node = some reason.code := by
  rcases Reference.ofNode_cases node with
    ⟨-, hdirect⟩ | ⟨members, -, -, hok⟩ | ⟨reason, -, hfault, hfail⟩
  · cases hdirect.symm.trans h
  · cases hok.symm.trans h
  · exact ⟨reason, (Except.error.inj (hfail.symm.trans h)).symm, hfault⟩

theorem Reference.ofNode_of_exactKeys {members : Members}
    (h : HasExactKeys members referenceKeys) :
    Reference.ofNode (.object members) =
      .ok (if (valueAt members referenceFlagKey).text? = some "true"
        then .bound (valueAt members referenceKey)
        else .inlined (valueAt members referenceKey)) := by
  rcases Reference.ofNode_cases (.object members) with
    ⟨hnot, -⟩ | ⟨members', hnode, -, hok⟩ | ⟨reason, -, hfault, -⟩
  · rw [isReference_of_exactKeys h] at hnot
    cases hnot
  · obtain rfl := Json.object.inj hnode
    exact hok
  · rw [keyFault?_of_exactKeys h] at hfault
    cases hfault

theorem Reference.ofNode_of_expectKeys_eq_error {node : Json} {failure : Failure Violation}
    (href : isReference node = true) (h : expectKeys referenceKeys node = .error failure) :
    Reference.ofNode node = .error failure := by
  rw [referenceKeys] at h
  simp only [Reference.ofNode, href, if_true, h]
  rfl

theorem Reference.ofNode_eq_error_iff {node : Json} {failure : Failure Violation} :
    Reference.ofNode node = .error failure ↔
      isReference node = true ∧ expectKeys referenceKeys node = .error failure := by
  refine ⟨fun h => ?_, fun ⟨href, h⟩ => Reference.ofNode_of_expectKeys_eq_error href h⟩
  cases href : isReference node with
  | false =>
      rw [Reference.ofNode_of_not_isReference href] at h
      cases h
  | true =>
      rcases expectKeys_cases referenceKeys node with ⟨members, rfl, hkeys, -⟩ | ⟨reason, -, hfail⟩
      · rw [Reference.ofNode_of_exactKeys hkeys] at h
        cases h
      · rw [Reference.ofNode_of_expectKeys_eq_error href hfail] at h
        cases h
        exact ⟨rfl, hfail⟩

theorem Tagged.ofNode_cases (node : Json) :
    (∃ members, node = .object members ∧ HasExactKeys members taggedKeys ∧
      Tagged.ofNode node =
        .ok ⟨(valueAt members tagKey).text?, valueAt members payloadKey⟩) ∨
    (∃ reason : Violation, keyFault? taggedKeys node = some reason.code ∧
      Tagged.ofNode node = Checked.fail reason) := by
  rcases expectKeys_cases taggedKeys node with
    ⟨members, rfl, hkeys, hok⟩ | ⟨reason, hfault, hfail⟩
  · refine .inl ⟨members, rfl, hkeys, ?_⟩
    have htag := member_eq_ok ((hkeys tagKey).mpr (by decide))
    have hpayload := member_eq_ok ((hkeys payloadKey).mpr (by decide))
    rw [taggedKeys] at hok
    simp only [Tagged.ofNode, hok, htag, hpayload, bind, Except.bind]
    rfl
  · refine .inr ⟨reason, hfault, ?_⟩
    rw [taggedKeys] at hfail
    simp only [Tagged.ofNode, hfail]
    rfl

theorem Tagged.ofNode_of_exactKeys {members : Members} (h : HasExactKeys members taggedKeys) :
    Tagged.ofNode (.object members) =
      .ok ⟨(valueAt members tagKey).text?, valueAt members payloadKey⟩ := by
  rcases Tagged.ofNode_cases (.object members) with ⟨members', hnode, -, hok⟩ | ⟨reason, hfault, -⟩
  · obtain rfl := Json.object.inj hnode
    exact hok
  · rw [keyFault?_of_exactKeys h] at hfault
    cases hfault

theorem Tagged.ofNode_of_expectKeys_eq_error {node : Json} {failure : Failure Violation}
    (h : expectKeys taggedKeys node = .error failure) : Tagged.ofNode node = .error failure := by
  rw [taggedKeys] at h
  simp only [Tagged.ofNode, h]
  rfl

theorem Tagged.ofNode_eq_error_iff {node : Json} {failure : Failure Violation} :
    Tagged.ofNode node = .error failure ↔ expectKeys taggedKeys node = .error failure := by
  refine ⟨fun h => ?_, Tagged.ofNode_of_expectKeys_eq_error⟩
  rcases expectKeys_cases taggedKeys node with ⟨members, rfl, hkeys, -⟩ | ⟨reason, -, hfail⟩
  · rw [Tagged.ofNode_of_exactKeys hkeys] at h
    cases h
  · rw [Tagged.ofNode_of_expectKeys_eq_error hfail] at h
    cases h
    exact hfail

/-! ## What a type asks of a node -/

namespace NodeType

def allowsReference (type : NodeType) (resolved : Bool) : Bool :=
  type.isVariable && !resolved

theorem allowsReference_iff {type : NodeType} {resolved : Bool} :
    type.allowsReference resolved = true ↔ type.isVariable = true ∧ resolved = false := by
  simp [allowsReference]

theorem allowsReference_resolved (type : NodeType) : type.allowsReference true = false := by
  simp [allowsReference]

theorem rule_cases (type : NodeType) (resolved : Bool) :
    (∃ pattern, type.rule = .primitive pattern) ∨
    type.allowsReference resolved = true ∨
    (∃ tags, type.rule = .union tags ∧ type.allowsReference resolved = false) ∨
    (∃ fields, type.rule = .record fields ∧ type.allowsReference resolved = false) := by
  cases hrule : type.rule <;> cases type.allowsReference resolved <;> simp

theorem rule_ne_primitive {type : NodeType} (hvariable : type.isVariable = true)
    (pattern : Pattern) : type.rule ≠ .primitive pattern := by
  cases type <;> simp_all [isVariable, rule]

section

variable {β : Type} {type : NodeType} {resolved : Bool} {onPrimitive : Pattern → β}
  {onReference : β} {onUnion : List NodeType → β} {onRecord : List FieldRule → β}

/-- One of four cases by the rule of a type.  Checking, collecting and tracing all choose so. -/
def dispatch (type : NodeType) (resolved : Bool) (onPrimitive : Pattern → β) (onReference : β)
    (onUnion : List NodeType → β) (onRecord : List FieldRule → β) : β :=
  match type.rule with
  | .primitive pattern => onPrimitive pattern
  | .union tags => if type.allowsReference resolved then onReference else onUnion tags
  | .record fields => if type.allowsReference resolved then onReference else onRecord fields

theorem dispatch_primitive {pattern : Pattern} (hrule : type.rule = .primitive pattern) :
    type.dispatch resolved onPrimitive onReference onUnion onRecord = onPrimitive pattern := by
  simp only [dispatch, hrule]

theorem dispatch_reference (hopen : type.allowsReference resolved = true) :
    type.dispatch resolved onPrimitive onReference onUnion onRecord = onReference := by
  have hne := rule_ne_primitive (allowsReference_iff.mp hopen).1
  cases hrule : type.rule with
  | primitive pattern => exact absurd hrule (hne pattern)
  | _ => simp only [dispatch, hrule, hopen, if_true]

theorem dispatch_variable (hvariable : type.isVariable = true) :
    type.dispatch false onPrimitive onReference onUnion onRecord = onReference :=
  dispatch_reference (allowsReference_iff.mpr ⟨hvariable, rfl⟩)

theorem dispatch_union {tags : List NodeType} (hrule : type.rule = .union tags)
    (hclosed : type.allowsReference resolved = false) :
    type.dispatch resolved onPrimitive onReference onUnion onRecord = onUnion tags := by
  simp only [dispatch, hrule, hclosed, Bool.false_eq_true, if_false]

theorem dispatch_record {fields : List FieldRule} (hrule : type.rule = .record fields)
    (hclosed : type.allowsReference resolved = false) :
    type.dispatch resolved onPrimitive onReference onUnion onRecord = onRecord fields := by
  simp only [dispatch, hrule, hclosed, Bool.false_eq_true, if_false]

end

end NodeType

end TreeSyntax
