import TreeSyntax.Proofs.Origin

/-!
# Decoding by exact keys

The keys of a node are settled once, before any of its values is looked up.  A node that passes has
all the values that are looked up later, so that a key can only be missing at the boundary itself.
References and tagged nodes are decoded just when they have their two keys, and give back what
stands there.
-/

namespace TreeSyntax

/-! ## The boundary -/

def FailsWith {α : Type} (checked : Checked Violation α) (code : ErrorCode) : Prop :=
  ∃ reason : Violation, checked = Checked.fail reason ∧ reason.code = code

section

variable {keys : List String} {node : Json} {members : Members}

theorem expectKeys_eq_ok_iff :
    expectKeys keys node = .ok members ↔ node = .object members ∧ HasExactKeys members keys := by
  constructor
  · intro h
    rcases expectKeys_cases keys node with ⟨found, hnode, hkeys, hok⟩ | ⟨reason, -, hfail⟩
    · rw [hok] at h
      cases h
      exact ⟨hnode, hkeys⟩
    · rw [hfail] at h
      cases h
  · rintro ⟨rfl, hkeys⟩
    exact expectKeys_of_exactKeys hkeys

theorem failsWith_expectKeys_iff {code : ErrorCode} :
    FailsWith (expectKeys keys node) code ↔ keyFault? keys node = some code := by
  rcases expectKeys_cases keys node with ⟨found, rfl, hkeys, hok⟩ | ⟨reason, hfault, hfail⟩
  · rw [hok, keyFault?_of_exactKeys hkeys]
    exact iff_of_false (by simp [FailsWith, Checked.fail]) (by simp)
  · rw [hfail, hfault, Option.some.injEq]
    constructor
    · rintro ⟨other, hother, rfl⟩
      cases hother
      rfl
    · exact fun hcode => ⟨reason, rfl, hcode⟩

theorem exists_member_of_expectKeys (h : expectKeys keys node = .ok members) {key : String}
    (hkey : key ∈ keys) : ∃ value, member members key = .ok value :=
  ⟨valueAt members key, member_eq_ok (((expectKeys_eq_ok_iff.1 h).2 key).2 hkey)⟩

end

/-! ## References -/

theorem isReference_eq_false_iff {node : Json} :
    isReference node = false ↔
      ∀ members, node = .object members → referenceFlagKey ∉ Entries.names members := by
  cases node <;> simp [isReference, ← Entries.has_eq_true_iff]

namespace Reference

inductive Reads : Json → Reference → Prop
  | direct {node : Json} (hnode : isReference node = false) : Reads node (.direct node)
  | bound {members : Members} {index : Json} (hkeys : HasExactKeys members referenceKeys)
      (hflag : Entries.find? members referenceFlagKey = some (.string "true"))
      (hindex : Entries.find? members referenceKey = some index) :
      Reads (.object members) (.bound index)
  | inlined {members : Members} {flag content : Json} (hkeys : HasExactKeys members referenceKeys)
      (hflag : Entries.find? members referenceFlagKey = some flag) (hother : flag ≠ .string "true")
      (hcontent : Entries.find? members referenceKey = some content) :
      Reads (.object members) (.inlined content)

variable {node : Json}

private theorem reads_of_exactKeys {members : Members}
    (hkeys : HasExactKeys members referenceKeys) :
    Reads (.object members) (if (valueAt members referenceFlagKey).text? = some "true"
      then .bound (valueAt members referenceKey)
      else .inlined (valueAt members referenceKey)) := by
  have hflag := find?_eq_valueAt ((hkeys referenceFlagKey).2 (by decide))
  have hcontent := find?_eq_valueAt ((hkeys referenceKey).2 (by decide))
  split
  next htrue => exact .bound hkeys (Json.text?_eq_some_iff.1 htrue ▸ hflag) hcontent
  next hother => exact .inlined hkeys hflag (hother ∘ Json.text?_eq_some_iff.2) hcontent

private theorem ofNode_of_reads {reference : Reference} (h : Reads node reference) :
    ofNode node = .ok reference := by
  cases h with
  | direct hnode => exact ofNode_of_not_isReference hnode
  | bound hkeys hflag hindex =>
      rw [ofNode_of_exactKeys hkeys, valueAt_eq hflag, valueAt_eq hindex]
      rfl
  | inlined hkeys hflag hother hcontent =>
      rw [ofNode_of_exactKeys hkeys, valueAt_eq hflag, valueAt_eq hcontent,
        if_neg (hother ∘ Json.text?_eq_some_iff.1)]

theorem ofNode_eq_ok_iff {reference : Reference} :
    ofNode node = .ok reference ↔ Reads node reference := by
  refine ⟨fun h => ?_, ofNode_of_reads⟩
  rcases ofNode_cases node with ⟨hnot, hok⟩ | ⟨members, rfl, hkeys, hok⟩ | ⟨reason, -, -, hfail⟩
  · rw [hok] at h
    cases h
    exact .direct hnot
  · rw [hok] at h
    cases h
    exact reads_of_exactKeys hkeys
  · rw [hfail] at h
    cases h

theorem ofNode_eq_direct_iff {inner : Json} :
    ofNode node = .ok (.direct inner) ↔
      inner = node ∧ ∀ members, node = .object members →
        referenceFlagKey ∉ Entries.names members := by
  rw [ofNode_eq_ok_iff, ← isReference_eq_false_iff]
  constructor
  · rintro ⟨hnode⟩
    exact ⟨rfl, hnode⟩
  · rintro ⟨rfl, hnode⟩
    exact .direct hnode

theorem ofNode_eq_bound_iff {index : Json} :
    ofNode node = .ok (.bound index) ↔
      ∃ members, node = .object members ∧ HasExactKeys members referenceKeys ∧
        Entries.find? members referenceFlagKey = some (.string "true") ∧
        Entries.find? members referenceKey = some index := by
  rw [ofNode_eq_ok_iff]
  constructor
  · rintro ⟨⟩
    exact ⟨_, rfl, ‹_›, ‹_›, ‹_›⟩
  · rintro ⟨members, rfl, hkeys, hflag, hindex⟩
    exact .bound hkeys hflag hindex

theorem ofNode_eq_inlined_iff {content : Json} :
    ofNode node = .ok (.inlined content) ↔
      ∃ members flag, node = .object members ∧ HasExactKeys members referenceKeys ∧
        Entries.find? members referenceFlagKey = some flag ∧ flag ≠ .string "true" ∧
        Entries.find? members referenceKey = some content := by
  rw [ofNode_eq_ok_iff]
  constructor
  · rintro ⟨⟩
    exact ⟨_, _, rfl, ‹_›, ‹_›, ‹_›, ‹_›⟩
  · rintro ⟨members, flag, rfl, hkeys, hflag, hother, hcontent⟩
    exact .inlined hkeys hflag hother hcontent

end Reference

/-! ## Tagged nodes -/

namespace Tagged

theorem ofNode_eq_ok_iff {node : Json} {tagged : Tagged} :
    ofNode node = .ok tagged ↔
      ∃ members discriminator, node = .object members ∧ HasExactKeys members taggedKeys ∧
        Entries.find? members tagKey = some discriminator ∧
        Entries.find? members payloadKey = some tagged.payload ∧
        ∀ name, tagged.tag = some name ↔ discriminator = .string name := by
  constructor
  · intro h
    rcases ofNode_cases node with ⟨members, rfl, hkeys, hok⟩ | ⟨reason, -, hfail⟩
    · rw [hok] at h
      cases h
      exact ⟨members, valueAt members tagKey, rfl, hkeys,
        find?_eq_valueAt ((hkeys tagKey).2 (by decide)),
        find?_eq_valueAt ((hkeys payloadKey).2 (by decide)), fun name => Json.text?_eq_some_iff⟩
    · rw [hfail] at h
      cases h
  · rintro ⟨members, discriminator, rfl, hkeys, htag, hpayload, hname⟩
    have htext : discriminator.text? = tagged.tag :=
      Option.ext fun name => Json.text?_eq_some_iff.trans (hname name).symm
    rw [ofNode_of_exactKeys hkeys, valueAt_eq htag, valueAt_eq hpayload, htext]

end Tagged

/-! ## Fields of a record -/

/-- One of the fields fails, after those before it passed.  Each is checked on the value that was
looked up for it. -/
def FieldsFail (checkPart : NodeType → Json → Verdict Violation) (members : Members)
    (fields : List FieldRule) (failure : Failure Violation) : Prop :=
  ∃ before field after value, fields = before ++ field :: after ∧
    (∀ earlier ∈ before, ∃ value, member members earlier.key = .ok value ∧
      checkField checkPart earlier value = .ok ()) ∧
    member members field.key = .ok value ∧ checkField checkPart field value = .error failure

section

variable {checkPart : NodeType → Json → Verdict Violation} {members : Members}
  {failure : Failure Violation}

theorem FieldsFail.cons_iff {field : FieldRule} {fields : List FieldRule} {value : Json}
    (hvalue : member members field.key = .ok value) :
    FieldsFail checkPart members (field :: fields) failure ↔
      checkField checkPart field value = .error failure ∨
      checkField checkPart field value = .ok () ∧ FieldsFail checkPart members fields failure := by
  constructor
  · rintro ⟨before, failing, after, found, hfields, hbefore, hfound, hfails⟩
    cases before with
    | nil =>
        obtain ⟨rfl, -⟩ := List.cons.inj hfields
        rw [hvalue] at hfound
        cases hfound
        exact .inl hfails
    | cons first before =>
        obtain ⟨rfl, rfl⟩ := List.cons.inj hfields
        obtain ⟨⟨other, hother, hpasses⟩, hbefore⟩ := List.forall_mem_cons.1 hbefore
        rw [hvalue] at hother
        cases hother
        exact .inr ⟨hpasses, before, failing, after, found, rfl, hbefore, hfound, hfails⟩
  · rintro (hfails | ⟨hpasses, before, failing, after, found, rfl, hbefore, hfound, hfails⟩)
    · exact ⟨[], field, fields, value, rfl, List.forall_mem_nil _, hvalue, hfails⟩
    · exact ⟨field :: before, failing, after, found, rfl,
        List.forall_mem_cons.2 ⟨⟨value, hvalue, hpasses⟩, hbefore⟩, hfound, hfails⟩

theorem checkFields_eq_error_iff {fields : List FieldRule}
    (hkeys : ∀ field ∈ fields, field.key ∈ Entries.names members) :
    checkFields checkPart members fields = .error failure ↔
      FieldsFail checkPart members fields failure := by
  induction fields with
  | nil => simp [checkFields, FieldsFail]
  | cons field fields ih =>
      obtain ⟨hkey, hkeys⟩ := List.forall_mem_cons.1 hkeys
      rw [checkFields_cons checkPart hkey, FieldsFail.cons_iff (member_eq_ok hkey), ← ih hkeys]
      cases checkField checkPart field (valueAt members field.key) <;> simp [andThen]

theorem checkRecord_eq_error_iff {fields : List FieldRule} {node : Json} :
    checkRecord checkPart fields node = .error failure ↔
      expectKeys (fields.map FieldRule.key) node = .error failure ∨
      ∃ members, expectKeys (fields.map FieldRule.key) node = .ok members ∧
        FieldsFail checkPart members fields failure := by
  rw [checkRecord]
  cases hexpected : expectKeys (fields.map FieldRule.key) node with
  | error found => simp
  | ok members =>
      obtain ⟨rfl, hkeys⟩ := expectKeys_eq_ok_iff.1 hexpected
      have hpresent : ∀ field ∈ fields, field.key ∈ Entries.names members :=
        fun field hfield => (hkeys field.key).2 (List.mem_map_of_mem hfield)
      simp [checkFields_eq_error_iff hpresent]

end

/-! ## Where a key is missing -/

/-- A position whose keys are wrong is where the check of it ends. -/
theorem check_of_expectKeys_eq_error {allowance : Nat} {position : Position} {keys : List String}
    {failure : Failure Violation} (hrequired : position.requiredKeys? = some keys)
    (h : expectKeys keys position.node = .error failure) :
    check (allowance + 1) position.type position.resolved position.node = .error failure := by
  obtain ⟨type, resolved, node⟩ := position
  rw [check_succ]
  rcases NodeType.rule_cases type resolved with
    ⟨pattern, hrule⟩ | hopen | ⟨tags, hrule, hclosed⟩ | ⟨fields, hrule, hclosed⟩
  · have hclosed : type.allowsReference resolved = false := by
      rw [← Bool.not_eq_true, NodeType.allowsReference_iff]
      exact fun hopen => NodeType.rule_ne_primitive hopen.1 pattern hrule
    simp [Position.requiredKeys?, hclosed, hrule] at hrequired
  · obtain ⟨hvariable, rfl⟩ := NodeType.allowsReference_iff.1 hopen
    rw [NodeType.dispatch_reference hopen, checkReference]
    simp only [Position.requiredKeys?, hopen, if_true] at hrequired
    split at hrequired
    next href =>
      cases hrequired
      rw [Reference.ofNode_of_expectKeys_eq_error href h]
    · cases hrequired
  · rw [NodeType.dispatch_union hrule hclosed, checkUnion]
    simp only [Position.requiredKeys?, hclosed, hrule] at hrequired
    cases hrequired
    rw [Tagged.ofNode_of_expectKeys_eq_error h]
  · rw [NodeType.dispatch_record hrule hclosed, checkRecord]
    simp only [Position.requiredKeys?, hclosed, hrule] at hrequired
    cases hrequired
    rw [h]

private theorem Announces.exists_requiredKeys {position : Position} {path : List String}
    {event : Event} (h : Announces position .missingKey path event) :
    path = [] ∧ ∃ keys, position.requiredKeys? = some keys ∧
      ∀ members, expectKeys keys position.node ≠ .ok members := by
  cases h with
  | object hrequired hnode =>
      exact ⟨rfl, _, hrequired, fun members hok => hnode members (expectKeys_eq_ok_iff.1 hok).1⟩
  | missingKey hrequired hnode hbefore habsent =>
      refine ⟨rfl, _, hrequired, fun members hok => habsent ?_⟩
      obtain ⟨hobject, hkeys⟩ := expectKeys_eq_ok_iff.1 hok
      obtain rfl := Json.object.inj (hobject.symm.trans hnode)
      exact (hkeys _).2 (by simp)

/-- A missing key that a run reports was missed at the boundary of the node that the path leads
to. -/
private theorem exists_expectKeys_of_missingKey {allowance : Nat} {position : Position}
    {failure : Failure Violation}
    (h : check allowance position.type position.resolved position.node = .error failure)
    (hcode : failure.reason.code = .missingKey) :
    ∃ steps reached keys, steps < allowance ∧ Reaches position failure.path steps reached ∧
      reached.requiredKeys? = some keys ∧
      expectKeys keys reached.node = Checked.fail failure.reason := by
  induction allowance generalizing position failure with
  | zero =>
      cases h
      cases hcode
  | succ allowance ih =>
      rcases beginsAt_of_check h with hannounces | ⟨segments, next, inner, hstep, hinner, rfl⟩
      · have hannounced := hannounces 0
        rw [hcode] at hannounced
        obtain ⟨hpath, keys, hrequired, hnotok⟩ := hannounced.exists_requiredKeys
        rcases expectKeys_cases keys position.node with
          ⟨members, -, -, hok⟩ | ⟨reason, -, hfail⟩
        · exact absurd hok (hnotok members)
        · -- The check ends with the failure of its own boundary, which is the one that was found.
          rw [check_of_expectKeys_eq_error hrequired hfail] at h
          cases h
          exact ⟨0, position, keys, Nat.succ_pos allowance, .refl position, hrequired, hfail⟩
      · obtain ⟨steps, reached, keys, hsteps, hreaches, hrequired, hfail⟩ := ih hinner hcode
        exact ⟨steps + 1, reached, keys, Nat.succ_lt_succ hsteps, .step hstep hreaches, hrequired,
          hfail⟩

/-! ## The whole boundary -/

/-- A node is decoded by its own keys: the boundary gives back its members exactly when their names
are the expected keys, tells an extra key only when none is missing, and leaves no look-up behind
it that can fail. -/
theorem nodes_decode_by_exact_keys (keys : List String) (node : Json) :
    ((∀ members, expectKeys keys node = .ok members ↔
        node = .object members ∧ HasExactKeys members keys) ∧
      (FailsWith (expectKeys keys node) .extraKey ↔
        ∃ members, node = .object members ∧ (∀ key ∈ keys, key ∈ Entries.names members) ∧
          ∃ key ∈ Entries.names members, key ∉ keys) ∧
      (FailsWith (expectKeys keys node) .missingKey ↔
        ∀ members, node = .object members → ∃ key ∈ keys, key ∉ Entries.names members) ∧
      ((∃ members, expectKeys keys node = .ok members) ∨
        FailsWith (expectKeys keys node) .extraKey ∨
        FailsWith (expectKeys keys node) .missingKey)) ∧
    (∀ members, expectKeys keys node = .ok members →
      ∀ key ∈ keys, ∃ value, member members key = .ok value) ∧
    (∀ failure, Reference.ofNode node = .error failure ↔
      isReference node = true ∧ expectKeys referenceKeys node = .error failure) ∧
    (∀ failure, Tagged.ofNode node = .error failure ↔
      expectKeys taggedKeys node = .error failure) ∧
    (∀ checkPart fields failure, checkRecord checkPart fields node = .error failure ↔
      expectKeys (fields.map FieldRule.key) node = .error failure ∨
      ∃ members, expectKeys (fields.map FieldRule.key) node = .ok members ∧
        FieldsFail checkPart members fields failure) ∧
    (∀ allowance type resolved failure, check allowance type resolved node = .error failure →
      failure.reason.code = .missingKey →
      ∃ steps reached required, steps < allowance ∧
        Reaches ⟨type, resolved, node⟩ failure.path steps reached ∧
        reached.requiredKeys? = some required ∧
        expectKeys required reached.node = Checked.fail failure.reason) ∧
    (∀ inner, Reference.ofNode node = .ok (.direct inner) ↔
      inner = node ∧ ∀ members, node = .object members →
        referenceFlagKey ∉ Entries.names members) ∧
    (∀ index, Reference.ofNode node = .ok (.bound index) ↔
      ∃ members, node = .object members ∧ HasExactKeys members referenceKeys ∧
        Entries.find? members referenceFlagKey = some (.string "true") ∧
        Entries.find? members referenceKey = some index) ∧
    (∀ content, Reference.ofNode node = .ok (.inlined content) ↔
      ∃ members flag, node = .object members ∧ HasExactKeys members referenceKeys ∧
        Entries.find? members referenceFlagKey = some flag ∧ flag ≠ .string "true" ∧
        Entries.find? members referenceKey = some content) ∧
    ∀ tagged, Tagged.ofNode node = .ok tagged ↔
      ∃ members discriminator, node = .object members ∧ HasExactKeys members taggedKeys ∧
        Entries.find? members tagKey = some discriminator ∧
        Entries.find? members payloadKey = some tagged.payload ∧
        ∀ name, tagged.tag = some name ↔ discriminator = .string name := by
  refine ⟨⟨fun members => expectKeys_eq_ok_iff,
      failsWith_expectKeys_iff.trans keyFault?_eq_extraKey_iff,
      failsWith_expectKeys_iff.trans keyFault?_eq_missingKey_iff, ?_⟩,
    fun members h key hkey => exists_member_of_expectKeys h hkey,
    fun failure => Reference.ofNode_eq_error_iff, fun failure => Tagged.ofNode_eq_error_iff,
    fun checkPart fields failure => checkRecord_eq_error_iff,
    fun allowance type resolved failure =>
      @exists_expectKeys_of_missingKey allowance ⟨type, resolved, node⟩ failure,
    fun inner => Reference.ofNode_eq_direct_iff, fun index => Reference.ofNode_eq_bound_iff,
    fun content => Reference.ofNode_eq_inlined_iff, fun tagged => Tagged.ofNode_eq_ok_iff⟩
  rcases expectKeys_cases keys node with ⟨members, -, -, hok⟩ | ⟨reason, hfault, -⟩
  · exact .inl ⟨members, hok⟩
  · rcases keyFault?_eq_some hfault with hcode | hcode
    · exact .inr (.inr (failsWith_expectKeys_iff.2 (hcode ▸ hfault)))
    · exact .inr (.inl (failsWith_expectKeys_iff.2 (hcode ▸ hfault)))

/-- A function without a body, asked for its keys with one of them named twice. -/
theorem bodilessFunction_missingKey :
    let function : Json := .object [("name", .string "f"), ("id", .string "f")]
    let program : Json := .object [("functions", .array [function])]
    (∃ value, member [("functions", .array [function])] "functions" = .ok value) ∧
    ∃ steps reached required, steps < 3 ∧
      Reaches ⟨.program, false, program⟩ ["functions", "0"] steps reached ∧
      reached.requiredKeys? = some required ∧
      expectKeys required reached.node = Checked.fail (.missingKey "function") := by
  intro function program
  obtain ⟨-, hlookup, -, -, -, hmissing, -⟩ :=
    nodes_decode_by_exact_keys ["functions", "functions"] program
  exact ⟨hlookup _ rfl "functions" (by decide),
    hmissing 3 .program false ⟨.missingKey "function", ["functions", "0"]⟩ rfl rfl⟩

end TreeSyntax
