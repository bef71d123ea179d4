import TreeSyntax.Proofs.EventLog
import TreeSyntax.Proofs.Libraries
import TreeSyntax.Proofs.Order

/-!
# The origin of a failure

Where a node goes wrong decides the one event that is told: its message belongs to the error code,
and its details name the key, the tag or the text at fault.  A run that ends well tells nothing.
-/

namespace TreeSyntax

/-! ## What the node of a position tells -/

/-- The code and the event of a node that goes wrong itself, and where below the position it does.
Of the keys that are missing the first required one is named, and of those that are too many the
first that the object has. -/
inductive Announces : Position → ErrorCode → List String → Event → Prop
  | primitive {position : Position} {pattern : Pattern}
      (hrule : position.type.rule = .primitive pattern)
      (hrefused : ¬ pattern.Matches position.node.plainText) :
      Announces position .invalidPrimitive []
        ⟨.trace, "primitive mismatch",
          [("expected", .text position.type.name), ("token", .text position.node.compact)]⟩
  | list {type : NodeType} {resolved : Bool} {fields : List FieldRule} {members : Members}
      {field : FieldRule} {value : Json} (hrule : type.rule = .record fields)
      (hclosed : type.allowsReference resolved = false)
      (hkeys : HasExactKeys members (fields.map FieldRule.key)) (hfield : field ∈ fields)
      (hlist : field.isList = true) (hvalue : Entries.find? members field.key = some value)
      (hother : ∀ items, value ≠ .array items) :
      Announces ⟨type, resolved, .object members⟩ .invalidList [field.key]
        ⟨.trace, "expected a list", [("key", .text field.key)]⟩
  | object {position : Position} {keys : List String}
      (hrequired : position.requiredKeys? = some keys)
      (hnode : ∀ members, position.node ≠ .object members) :
      Announces position .missingKey []
        ⟨.trace, "expected an object", [("token", .text position.node.compact)]⟩
  | missingKey {position : Position} {before after : List String} {key : String}
      {members : Members} (hrequired : position.requiredKeys? = some (before ++ key :: after))
      (hnode : position.node = .object members)
      (hbefore : ∀ earlier ∈ before, earlier ∈ Entries.names members)
      (habsent : key ∉ Entries.names members) :
      Announces position .missingKey [] ⟨.trace, "missing key", [("key", .text key)]⟩
  | extraKey {position : Position} {keys before after : List String} {key : String}
      {members : Members} (hrequired : position.requiredKeys? = some keys)
      (hnode : position.node = .object members)
      (hpresent : ∀ required ∈ keys, required ∈ Entries.names members)
      (hnames : Entries.names members = before ++ key :: after)
      (hbefore : ∀ earlier ∈ before, earlier ∈ keys) (hextra : key ∉ keys) :
      Announces position .extraKey [] ⟨.trace, "extra key", [("key", .text key)]⟩
  | tag {type : NodeType} {resolved : Bool} {tags : List NodeType} {members : Members}
      {tag : Json} (hrule : type.rule = .union tags)
      (hclosed : type.allowsReference resolved = false)
      (hkeys : HasExactKeys members taggedKeys) (htag : Entries.find? members tagKey = some tag)
      (hother : ∀ allowed ∈ tags, tag ≠ .string allowed.name) :
      Announces ⟨type, resolved, .object members⟩ .typeNotAllowed []
        ⟨.trace, "tag not allowed",
          [("tag", .text (Violation.tagText tag.text?)),
            ("allowed", .text (Violation.typesText tags))]⟩

theorem announces_of_expectKeys {position : Position} {keys : List String}
    {failure : Failure Violation} (hrequired : position.requiredKeys? = some keys)
    (h : expectKeys keys position.node = .error failure) (limit : Nat) :
    Announces position failure.reason.code failure.path (failure.reason.event limit) := by
  cases hnode : position.node with
  | object members =>
      rw [hnode, expectKeys] at h
      cases hmissing : keys.find? fun key => !Entries.has members key with
      | some key =>
          rw [hmissing] at h
          obtain rfl := Except.error.inj h
          obtain ⟨habsent, before, after, rfl, hbefore⟩ := List.find?_eq_some_iff_append.mp hmissing
          simp only [Bool.not_eq_true', Bool.not_not] at habsent hbefore
          refine .missingKey hrequired hnode
            (fun earlier hearlier => Entries.has_eq_true_iff.mp (hbefore earlier hearlier)) ?_
          simp [← Entries.has_eq_true_iff, habsent]
      | none =>
          have hpresent : ∀ key ∈ keys, key ∈ Entries.names members := by
            simpa using hmissing
          simp only [hmissing] at h
          cases hextra : (Entries.names members).find? fun key => !keys.contains key with
          | some key =>
              rw [hextra] at h
              obtain rfl := Except.error.inj h
              obtain ⟨hunknown, before, after, hnames, hbefore⟩ :=
                List.find?_eq_some_iff_append.mp hextra
              refine .extraKey hrequired hnode hpresent hnames (fun earlier hearlier => ?_) ?_
              · simpa using hbefore earlier hearlier
              · simpa using hunknown
          | none =>
              rw [hextra] at h
              cases h
  | _ =>
      rw [hnode] at h
      obtain rfl := Except.error.inj h
      rw [← hnode]
      exact .object hrequired (by simp [hnode])

/-! ## One step of a failing check -/

def BeginsAt (checkPart : NodeType → Bool → Json → Verdict Violation) (position : Position)
    (failure : Failure Violation) : Prop :=
  (∀ limit, Announces position failure.reason.code failure.path (failure.reason.event limit)) ∨
  ∃ segments next inner, Step position segments next ∧
    checkPart next.type next.resolved next.node = .error inner ∧ failure = inner.below segments

private theorem exists_of_checkItems_eq_error {key : String} {checkItem : Json → Verdict Violation}
    {index : Nat} {items : List Json} {failure : Failure Violation}
    (h : checkItems key checkItem index items = .error failure) :
    ∃ place item inner, items[place]? = some item ∧ checkItem item = .error inner ∧
      failure = inner.below [key, indexText (index + place)] := by
  induction items generalizing index with
  | nil => cases h
  | cons item items ih =>
      rw [checkItems] at h
      cases hitem : (checkItem item).withinIndex key index with
      | error found =>
          rw [hitem] at h
          obtain rfl := Except.error.inj h
          obtain ⟨_, hmiddle, rfl⟩ := Checked.exists_of_within_eq_error hitem
          obtain ⟨inner, hinner, rfl⟩ := Checked.exists_of_within_eq_error hmiddle
          exact ⟨0, item, inner, rfl, hinner, rfl⟩
      | ok value =>
          rw [hitem] at h
          obtain ⟨place, other, inner, hplace, hinner, rfl⟩ := ih h
          refine ⟨place + 1, other, inner, hplace, hinner, ?_⟩
          rw [Nat.add_assoc, Nat.add_comm 1 place]

private theorem exists_of_checkFields_eq_error {checkPart : NodeType → Json → Verdict Violation}
    {members : Members} {fields : List FieldRule} {failure : Failure Violation}
    (hkeys : ∀ field ∈ fields, field.key ∈ Entries.names members)
    (h : checkFields checkPart members fields = .error failure) :
    ∃ field ∈ fields, checkField checkPart field (valueAt members field.key) = .error failure := by
  induction fields with
  | nil => cases h
  | cons field fields ih =>
      obtain ⟨hkey, hkeys⟩ := List.forall_mem_cons.mp hkeys
      rw [checkFields_cons checkPart hkey] at h
      cases hfield : checkField checkPart field (valueAt members field.key) with
      | error found =>
          rw [hfield] at h
          obtain rfl := Except.error.inj h
          exact ⟨field, List.mem_cons_self, hfield⟩
      | ok value =>
          rw [hfield] at h
          obtain ⟨other, hother, hfailure⟩ := ih hkeys h
          exact ⟨other, List.mem_cons_of_mem field hother, hfailure⟩

section

variable {checkPart : NodeType → Bool → Json → Verdict Violation} {type : NodeType}
  {resolved : Bool} {node : Json} {failure : Failure Violation}

private theorem beginsAt_of_checkReference (hvariable : type.isVariable = true)
    (h : checkReference checkPart type node = .error failure) :
    BeginsAt checkPart ⟨type, false, node⟩ failure := by
  cases hreference : Reference.ofNode node with
  | error found =>
      rw [checkReference, hreference] at h
      obtain rfl := Except.error.inj h
      obtain ⟨href, hfail⟩ := Reference.ofNode_eq_error_iff.mp hreference
      have hopen := NodeType.allowsReference_iff.mpr ⟨hvariable, rfl⟩
      have hrequired : Position.requiredKeys? ⟨type, false, node⟩ = some referenceKeys := by
        simp [Position.requiredKeys?, hopen, href]
      exact .inl (announces_of_expectKeys hrequired hfail)
  | ok reference =>
      rw [checkReference, hreference] at h
      have hstep := Step.of_reference hvariable hreference
      cases reference with
      | direct inner => exact .inr ⟨_, _, failure, hstep, h, rfl⟩
      | bound index =>
          obtain ⟨inner, hinner, rfl⟩ := Checked.exists_of_within_eq_error h
          exact .inr ⟨_, _, inner, hstep, hinner, rfl⟩
      | inlined content =>
          obtain ⟨inner, hinner, rfl⟩ := Checked.exists_of_within_eq_error h
          exact .inr ⟨_, _, inner, hstep, hinner, rfl⟩

private theorem beginsAt_of_checkUnion {tags : List NodeType} (hrule : type.rule = .union tags)
    (hclosed : type.allowsReference resolved = false)
    (h : checkUnion (fun part => checkPart part false) tags node = .error failure) :
    BeginsAt checkPart ⟨type, resolved, node⟩ failure := by
  rcases expectKeys_cases taggedKeys node with ⟨members, rfl, hkeys, -⟩ | ⟨reason, -, hfail⟩
  · rw [checkUnion, Tagged.ofNode_of_exactKeys hkeys] at h
    cases hallowed : allowedTag? tags (valueAt members tagKey).text? with
    | none =>
        simp only [hallowed] at h
        obtain rfl := Except.error.inj h
        have htag := find?_eq_valueAt ((hkeys tagKey).mpr (by decide))
        refine .inl fun limit => .tag hrule hclosed hkeys htag fun allowed hin heq => ?_
        exact allowedTag?_eq_none_iff.mp hallowed allowed hin (Json.text?_eq_some_iff.mpr heq)
    | some tag =>
        simp only [hallowed] at h
        obtain ⟨inner, hinner, rfl⟩ := Checked.exists_of_within_eq_error h
        exact .inr ⟨_, _, inner, .of_allowedTag? hrule hclosed hkeys hallowed, hinner, rfl⟩
  · rw [checkUnion, Tagged.ofNode_of_expectKeys_eq_error hfail] at h
    obtain rfl := Except.error.inj h
    have hrequired : Position.requiredKeys? ⟨type, resolved, node⟩ = some taggedKeys := by
      simp [Position.requiredKeys?, hclosed, hrule]
    exact .inl (announces_of_expectKeys hrequired hfail)

private theorem beginsAt_of_checkRecord {fields : List FieldRule}
    (hrule : type.rule = .record fields) (hclosed : type.allowsReference resolved = false)
    (h : checkRecord (fun part => checkPart part false) fields node = .error failure) :
    BeginsAt checkPart ⟨type, resolved, node⟩ failure := by
  rcases expectKeys_cases (fields.map FieldRule.key) node with
    ⟨members, rfl, hkeys, hok⟩ | ⟨reason, -, hfail⟩
  · have hpresent : ∀ field ∈ fields, field.key ∈ Entries.names members :=
      fun field hfield => (hkeys field.key).mpr (List.mem_map_of_mem hfield)
    simp only [checkRecord, hok] at h
    obtain ⟨field, hfield, h⟩ := exists_of_checkFields_eq_error hpresent h
    simp only [checkField] at h
    cases hlist : field.isList with
    | false =>
        simp only [hlist] at h
        obtain ⟨inner, hinner, rfl⟩ := Checked.exists_of_within_eq_error h
        exact .inr ⟨_, _, inner, .of_field hrule hclosed hkeys hfield hlist, hinner, rfl⟩
    | true =>
        simp only [hlist, if_true] at h
        have hfound := find?_eq_valueAt (hpresent field hfield)
        cases hvalue : valueAt members field.key with
        | array items =>
            rw [hvalue] at h
            obtain ⟨index, item, inner, hitem, hinner, rfl⟩ := exists_of_checkItems_eq_error h
            have hstep := Step.of_element hrule hclosed hkeys hfield hlist hvalue hitem
            rw [Nat.zero_add]
            exact .inr ⟨_, _, inner, hstep, hinner, rfl⟩
        | _ =>
            rw [hvalue] at h
            obtain rfl := Except.error.inj h
            refine .inl fun limit => .list hrule hclosed hkeys hfield hlist hfound ?_
            simp [hvalue]
  · rw [checkRecord, hfail] at h
    obtain rfl := Except.error.inj h
    have hrequired : Position.requiredKeys? ⟨type, resolved, node⟩ =
        some (fields.map FieldRule.key) := by
      simp [Position.requiredKeys?, hclosed, hrule]
    exact .inl (announces_of_expectKeys hrequired hfail)

end

theorem beginsAt_of_check {allowance : Nat} {position : Position} {failure : Failure Violation}
    (h : check (allowance + 1) position.type position.resolved position.node = .error failure) :
    BeginsAt (check allowance) position failure := by
  obtain ⟨type, resolved, node⟩ := position
  rw [check_succ] at h
  rcases NodeType.rule_cases type resolved with
    ⟨pattern, hrule⟩ | hopen | ⟨tags, hrule, hclosed⟩ | ⟨fields, hrule, hclosed⟩
  · rw [NodeType.dispatch_primitive hrule] at h
    simp only [checkPrimitive, Pattern.read] at h
    split at h
    · cases h
    next hrefused =>
      obtain rfl := Except.error.inj h
      exact .inl fun limit => .primitive hrule (hrefused ∘ Pattern.accepts_iff_matches.mpr)
  · rw [NodeType.dispatch_reference hopen] at h
    obtain ⟨hvariable, rfl⟩ := NodeType.allowsReference_iff.mp hopen
    exact beginsAt_of_checkReference hvariable h
  · rw [NodeType.dispatch_union hrule hclosed] at h
    exact beginsAt_of_checkUnion hrule hclosed h
  · rw [NodeType.dispatch_record hrule hclosed] at h
    exact beginsAt_of_checkRecord hrule hclosed h

/-! ## The origin in a whole tree -/

theorem Reaches.snoc {first middle last : Position} {path segments : List String} {steps : Nat}
    (h : Reaches first path steps middle) (hstep : Step middle segments last) :
    Reaches first (path ++ segments) (steps + 1) last := by
  induction h with
  | refl position =>
      have hreaches := Reaches.step hstep (.refl last)
      rwa [List.append_nil] at hreaches
  | step hfirst hrest ih =>
      rw [List.append_assoc]
      exact .step hfirst (ih hstep)

/-- A tree goes wrong with a code, and an event tells so: some position that the root reaches
within the limit announces it, or a position lies one step beyond the limit. -/
inductive Tells (limit : Nat) (root : Position) : ErrorCode → List String → Event → Prop
  | announced {path below : List String} {steps : Nat} {reached : Position} {code : ErrorCode}
      {event : Event} (hreaches : Reaches root path steps reached) (hsteps : steps ≤ limit)
      (hannounces : Announces reached code below event) :
      Tells limit root code (path ++ below) event
  | tooDeep {path : List String} {reached : Position}
      (hreaches : Reaches root path (limit + 1) reached) :
      Tells limit root .tooDeep path
        ⟨.trace, "depth limit reached",
          [("depth", .number (limit + 1)), ("expected", .text reached.type.name)]⟩

/-- What fails at a position with what is left of the allowance is told in the tree above it. -/
private theorem tells_of_check_reached {limit allowance steps : Nat} {root position : Position}
    {path : List String} {failure : Failure Violation} (hsteps : steps + allowance = limit + 1)
    (hreaches : Reaches root path steps position)
    (h : check allowance position.type position.resolved position.node = .error failure) :
    Tells limit root failure.reason.code (path ++ failure.path)
      (failure.reason.event limit) := by
  induction allowance generalizing steps position path failure with
  | zero =>
      obtain rfl : steps = limit + 1 := hsteps
      obtain rfl := Except.error.inj h
      rw [Failure.here, List.append_nil]
      exact .tooDeep hreaches
  | succ allowance ih =>
      rcases beginsAt_of_check h with hannounces | ⟨segments, next, inner, hstep, hinner, rfl⟩
      · exact .announced hreaches (by omega) (hannounces limit)
      · have htells := ih (by omega) (hreaches.snoc hstep) hinner
        rwa [List.append_assoc] at htells

theorem tells_of_check {limit : Nat} {root : Position} {failure : Failure Violation}
    (h : check (limit + 1) root.type root.resolved root.node = .error failure) :
    Tells limit root failure.reason.code failure.path (failure.reason.event limit) :=
  tells_of_check_reached (Nat.zero_add _) (.refl root) h

/-! ## Runs and their events -/

inductive Accounts (limit : Nat) (root : Position) (start : List String) :
    Outcome → List Event → Prop
  | valid : Accounts limit root start .valid []
  | invalid {code : ErrorCode} {path : List String} {event : Event}
      (htells : Tells limit root code path event) :
      Accounts limit root start (.invalid code (start ++ path)) [event]

theorem accounts_checkNode {options : Options} {typeName : String} {type : NodeType}
    (htype : NodeType.ofName? typeName = some type) (resolved : Bool) (node : Json) :
    Accounts options.maxDepth ⟨type, resolved, node⟩ []
      (.ofVerdict ((checkNode options typeName resolved node).mapReason Violation.code))
      ((checkNode options typeName resolved node).events options.maxDepth) := by
  have hcheck : checkNode options typeName resolved node =
      check (options.maxDepth + 1) type resolved node := by
    rw [checkNode, htype]
  cases hverdict : checkNode options typeName resolved node with
  | ok value => exact .valid
  | error failure =>
      rw [hcheck] at hverdict
      have htells : Tells options.maxDepth ⟨type, resolved, node⟩ failure.reason.code failure.path
          (failure.reason.event options.maxDepth) := tells_of_check hverdict
      exact .invalid htells

theorem exists_tells_of_checkProgram {options : Options} {program : Json}
    {failure : Failure Violation} (h : checkProgram options program = .error failure) :
    ∃ path, failure.path = Outcome.rootSegment :: path ∧
      validateSyntax options program =
        .invalid failure.reason.code (Outcome.rootSegment :: path) ∧
      Tells options.maxDepth ⟨.program, false, program⟩ failure.reason.code path
        (failure.reason.event options.maxDepth) := by
  have houtcome : validateSyntax options program =
      .invalid failure.reason.code failure.path := by
    rw [validateSyntax, h]
    rfl
  obtain ⟨inner, hinner, rfl⟩ := Checked.exists_of_within_eq_error h
  have htells : Tells options.maxDepth ⟨.program, false, program⟩ inner.reason.code inner.path
      (inner.reason.event options.maxDepth) := tells_of_check hinner
  exact ⟨inner.path, rfl, houtcome, htells⟩

theorem accounts_checkProgram (options : Options) (program : Json) :
    Accounts options.maxDepth ⟨.program, false, program⟩ [Outcome.rootSegment]
      (validateSyntax options program)
      ((checkProgram options program).events options.maxDepth) := by
  cases hverdict : checkProgram options program with
  | ok value =>
      rw [validateSyntax, hverdict]
      exact .valid
  | error failure =>
      obtain ⟨path, -, houtcome, htells⟩ := exists_tells_of_checkProgram hverdict
      rw [houtcome]
      exact .invalid htells

/-! ## Validations and their last event -/

inductive Concludes (options : Options) (libraries : Option Libraries) (input : Json) :
    List Event → Event → Outcome → Prop
  | unstructured (hinput : input.isStructured = false) :
      Concludes options libraries input [] ⟨.debug, "input is not a structured value", []⟩
        (.invalid .invalidInput [])
  | libraryFailed {before after : Libraries} {name : String} {library : Json} {code : ErrorCode}
      {path : List String} {event : Event} (hinput : input.isStructured = true)
      (hasked : options.checkLibraries = true)
      (hlibraries : libraries.getD [] = before ++ (name, library) :: after)
      (hbefore : before.AllValid options)
      (hfails : validateSyntax options library = .invalid code (Outcome.rootSegment :: path))
      (htells : Tells options.maxDepth ⟨.program, false, library⟩ code path event) :
      Concludes options libraries input [event]
        ⟨.debug, "library failed validation",
          [("library", .text name), ("result", .text (validateSyntax options library).text)]⟩
        (.invalid code (librariesSegment :: name :: Outcome.rootSegment :: path))
  | validated {traces : List Event} (hinput : input.isStructured = true)
      (hvalid : options.checkLibraries = true → (libraries.getD []).AllValid options)
      (haccounts : Accounts options.maxDepth ⟨.program, false, input⟩ [Outcome.rootSegment]
        (validateSyntax options input) traces) :
      Concludes options libraries input traces
        ⟨.debug, "validated program",
          [("libraries", .number (libraries.getD []).length),
            ("result", .text (validateSyntax options input).text)]⟩
        (validateSyntax options input)

private theorem exists_concludes (options : Options) (libraries : Option Libraries) (input : Json) :
    ∃ traces last, validationEvents options libraries input = traces ++ [last] ∧
      Concludes options libraries input traces last (validateWith options libraries input) := by
  cases hinput : input.isStructured with
  | false =>
      rw [validateWith_of_scalar hinput]
      refine ⟨[], _, ?_, .unstructured hinput⟩
      simp only [validationEvents, review, hinput]
      rfl
  | true =>
      cases hfailing :
          if options.checkLibraries then failingLibrary? options (libraries.getD []) else none with
      | none =>
          have hvalid : options.checkLibraries = true → (libraries.getD []).AllValid options := by
            intro hasked
            rw [if_pos hasked] at hfailing
            exact failingLibrary?_eq_none_iff.mp hfailing
          simp only [validationEvents, validateWith, review, hinput, hfailing, if_true]
          exact ⟨_, _, rfl, .validated hinput hvalid (accounts_checkProgram options input)⟩
      | some failing =>
          obtain ⟨name, failure⟩ := failing
          simp only [validationEvents, validateWith, review, hinput, hfailing, if_true]
          split at hfailing
          next hasked =>
            obtain ⟨before, library, after, hlibraries, hbefore, hfailure⟩ :=
              exists_split_of_failingLibrary? hfailing
            obtain ⟨path, hpath, hfails, htells⟩ := exists_tells_of_checkProgram hfailure
            have hconcludes :=
              Concludes.libraryFailed hinput hasked hlibraries hbefore hfails htells
            rw [validateSyntax, hfailure, ← hpath] at hconcludes
            exact ⟨_, _, rfl, hconcludes⟩
          · cases hfailing

def validationLevels : Option ErrorCode → List Level
  | none => [.debug]
  | some .invalidInput => [.debug]
  | some _ => [.trace, .debug]

theorem Tells.levels_eq {limit : Nat} {root : Position} {code : ErrorCode} {path : List String}
    {event : Event} (h : Tells limit root code path event) :
    [event.level, .debug] = validationLevels (some code) := by
  cases h with
  | announced hreaches hsteps hannounces => cases hannounces <;> rfl
  | tooDeep hreaches => rfl

theorem Accounts.levels_eq {limit : Nat} {root : Position} {start : List String}
    {outcome : Outcome} {events : List Event} (h : Accounts limit root start outcome events) :
    events.map Event.level ++ [.debug] = validationLevels outcome.errorCode := by
  cases h with
  | valid => rfl
  | invalid htells => exact htells.levels_eq

theorem Concludes.levels_eq {options : Options} {libraries : Option Libraries} {input : Json}
    {traces : List Event} {last : Event} {outcome : Outcome}
    (h : Concludes options libraries input traces last outcome) :
    (traces ++ [last]).map Event.level = validationLevels outcome.errorCode := by
  cases h with
  | unstructured hinput => rfl
  | libraryFailed hinput hasked hlibraries hbefore hfails htells => exact htells.levels_eq
  | validated hinput hvalid haccounts =>
      rw [List.map_append]
      exact haccounts.levels_eq

/-- A valid run over a tree tells nothing, and an invalid one tells one event about the origin of
its code.  A validation ends with one event that tells how far it came, after the one of the tree
that failed. -/
theorem one_failure_one_event (options : Options) (libraries : Option Libraries)
    (typeName : String) (resolved : Bool) (input : Json) :
    ((traceProgram options input).outcome = validateSyntax options input ∧
      (traceProgram options input).events =
        (checkProgram options input).events options.maxDepth ∧
      Accounts options.maxDepth ⟨.program, false, input⟩ [Outcome.rootSegment]
        (validateSyntax options input) (traceProgram options input).events) ∧
    ((traceNode .default typeName resolved input).outcome = validateNode typeName resolved input ∧
      (traceNode .default typeName resolved input).events =
        (checkNode .default typeName resolved input).events Options.default.maxDepth ∧
      match NodeType.ofName? typeName with
      | some type =>
          Accounts Options.default.maxDepth ⟨type, resolved, input⟩ []
            (validateNode typeName resolved input)
            (traceNode .default typeName resolved input).events
      | none =>
          validateNode typeName resolved input = .invalid .typeNotAllowed [] ∧
          (traceNode .default typeName resolved input).events =
            [⟨.trace, "no grammar rule", [("expected", .text typeName)]⟩]) ∧
    traceValidation options libraries input =
      (validationEvents options libraries input, validateWith options libraries input) ∧
    (validationEvents options libraries input).map Event.level =
      validationLevels (validateWith options libraries input).errorCode ∧
    ∃ traces last, validationEvents options libraries input = traces ++ [last] ∧
      Concludes options libraries input traces last (validateWith options libraries input) := by
  have hprogram : (traceProgram options input).events =
      (checkProgram options input).events options.maxDepth :=
    (follows_traceProgram options input).events
  have hnode := follows_traceNode .default typeName resolved input
  obtain ⟨traces, last, hevents, hconcludes⟩ := exists_concludes options libraries input
  refine ⟨⟨outcome_traceProgram options input, hprogram, ?_⟩, ⟨hnode.outcome_eq, hnode.events, ?_⟩,
    traceValidation_eq options libraries input, ?_, traces, last, hevents, hconcludes⟩
  · rw [hprogram]
    exact accounts_checkProgram options input
  · rw [hnode.events, validateNode]
    split
    next type htype => exact accounts_checkNode htype resolved input
    next hunknown =>
      rw [checkNode, hunknown]
      exact ⟨rfl, rfl⟩
  · rw [hevents]
    exact hconcludes.levels_eq

end TreeSyntax
