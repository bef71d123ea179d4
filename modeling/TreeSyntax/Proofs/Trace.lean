import TreeSyntax.Proofs.Traced

/-!
# The traced check

The traced check does what a check does, counts its depth upwards and traces what it does on the
way.  Its verdict is that of the check, it logs the event of that verdict, and every call is made at
a position that as many steps reach as its depth tells.
-/

namespace TreeSyntax

open Traced

/-! ## The traced check -/

def traceItems (key : String) (trace : Json → Traced Unit) (index : Nat) :
    List Json → Traced Unit
  | [] => return ()
  | item :: items => do
      (trace item).withinIndex key index
      traceItems key trace (index + 1) items

def traceField (trace : NodeType → Json → Traced Unit) (field : FieldRule) (value : Json) :
    Traced Unit :=
  if field.isList then
    match value with
    | .array items => traceItems field.key (trace field.type) 0 items
    | _ => do
        .tell "expected a list" [("key", .text field.key)]
        (Traced.fail (.notAList field.key)).within field.key
  else (trace field.type value).within field.key

def traceFields (trace : NodeType → Json → Traced Unit) (members : Members) :
    List FieldRule → Traced Unit
  | [] => return ()
  | field :: fields => do
      let value ← traceMember members field.key
      traceField trace field value
      traceFields trace members fields

def traceReferent (trace : NodeType → Bool → Json → Traced Unit) (expected : NodeType) :
    Reference → Traced Unit
  | .direct node => trace expected true node
  | .bound index => (trace .integerLiteral false index).within referenceKey
  | .inlined node => (trace expected true node).within referenceKey

def traceReference (trace : NodeType → Bool → Json → Traced Unit) (expected : NodeType)
    (node : Json) : Traced Unit := do
  let reference ← traceReferenceOf node
  traceReferent trace expected reference

def tracePayload (trace : NodeType → Json → Traced Unit) (tags : List NodeType)
    (tagged : Tagged) : Traced Unit :=
  match allowedTag? tags tagged.tag with
  | some type => (trace type tagged.payload).within payloadKey
  | none => do
      .tell "tag not allowed"
        [("tag", .text (Violation.tagText tagged.tag)),
          ("allowed", .text (Violation.typesText tags))]
      .fail (.tagNotAllowed tagged.tag tags)

def traceUnion (trace : NodeType → Json → Traced Unit) (tags : List NodeType) (node : Json) :
    Traced Unit := do
  let tagged ← traceTaggedOf node
  tracePayload trace tags tagged

def traceRecord (trace : NodeType → Json → Traced Unit) (fields : List FieldRule)
    (node : Json) : Traced Unit := do
  let members ← traceKeys (fields.map FieldRule.key) node
  traceFields trace members fields

def tracePrimitive (pattern : Pattern) (expected : NodeType) (node : Json) : Traced Unit := do
  let _ ← traceText pattern expected.name node

def traceRule (trace : NodeType → Bool → Json → Traced Unit) (expected : NodeType)
    (resolved : Bool) (node : Json) : Traced Unit :=
  expected.dispatch resolved (fun pattern => tracePrimitive pattern expected node)
    (traceReference trace expected node)
    (fun tags => traceUnion (fun part => trace part false) tags node)
    (fun fields => traceRecord (fun part => trace part false) fields node)

/-- The check from a depth on, every call being given one more than the call that makes it. -/
def trace : (allowance depth : Nat) → (expected : NodeType) → (resolved : Bool) → Json →
    Traced Unit
  | 0, depth, expected, resolved, node => do
      .call ⟨expected, resolved, node⟩ depth
      .tell "depth limit reached" [("depth", .number depth), ("expected", .text expected.name)]
      .fail (.tooDeep expected)
  | allowance + 1, depth, expected, resolved, node => do
      .call ⟨expected, resolved, node⟩ depth
      traceRule (trace allowance (depth + 1)) expected resolved node

theorem visits_trace_succ (allowance depth : Nat) (expected : NodeType) (resolved : Bool)
    (node : Json) :
    (trace (allowance + 1) depth expected resolved node).visits =
      ⟨[], ⟨expected, resolved, node⟩, depth⟩ ::
        (traceRule (trace allowance (depth + 1)) expected resolved node).visits := rfl

def traceProgram (options : Options) (program : Json) : Traced Unit :=
  (trace (options.maxDepth + 1) 0 .program false program).within Outcome.rootSegment

/-! ## Runs after a look-up

No event of a look-up reads the limit, so any limit will do.
-/

section

variable {tracePart : NodeType → Json → Traced Unit} {node : Json} {failure : Failure Violation}

theorem traceFields_cons {members : Members} {field : FieldRule}
    (hkey : field.key ∈ Entries.names members) (fields : List FieldRule) :
    traceFields tracePart members (field :: fields) =
      traceField tracePart field (valueAt members field.key) >>= fun _ =>
        traceFields tracePart members fields := by
  rw [traceFields, traceMember_eq hkey, ok_bind]

theorem traceRecord_of_ok {fields : List FieldRule} {members : Members}
    (h : expectKeys (fields.map FieldRule.key) node = .ok members) :
    traceRecord tracePart fields node = traceFields tracePart members fields := by
  rw [traceRecord, traceKeys_eq 0, h, ofChecked_ok, ok_bind]

theorem traceRecord_of_error (limit : Nat) {fields : List FieldRule}
    (h : expectKeys (fields.map FieldRule.key) node = .error failure) :
    traceRecord tracePart fields node = ofChecked limit (.error failure) := by
  rw [traceRecord, traceKeys_eq limit, h, ofChecked_error_bind]

theorem traceUnion_of_ok {tags : List NodeType} {tagged : Tagged}
    (h : Tagged.ofNode node = .ok tagged) :
    traceUnion tracePart tags node = tracePayload tracePart tags tagged := by
  rw [traceUnion, traceTaggedOf_eq 0, h, ofChecked_ok, ok_bind]

theorem traceUnion_of_error (limit : Nat) {tags : List NodeType}
    (h : Tagged.ofNode node = .error failure) :
    traceUnion tracePart tags node = ofChecked limit (.error failure) := by
  rw [traceUnion, traceTaggedOf_eq limit, h, ofChecked_error_bind]

end

section

variable {tracePart : NodeType → Bool → Json → Traced Unit} {expected : NodeType} {node : Json}

theorem traceReference_of_ok {reference : Reference} (h : Reference.ofNode node = .ok reference) :
    traceReference tracePart expected node = traceReferent tracePart expected reference := by
  rw [traceReference, traceReferenceOf_eq 0, h, ofChecked_ok, ok_bind]

theorem traceReference_of_error (limit : Nat) {failure : Failure Violation}
    (h : Reference.ofNode node = .error failure) :
    traceReference tracePart expected node = ofChecked limit (.error failure) := by
  rw [traceReference, traceReferenceOf_eq limit, h, ofChecked_error_bind]

end

theorem tracePrimitive_eq (limit : Nat) (pattern : Pattern) (expected : NodeType) (node : Json) :
    tracePrimitive pattern expected node =
      ofChecked limit (checkPrimitive pattern expected node) := by
  rw [tracePrimitive, checkPrimitive, traceText_eq limit]
  cases pattern.read expected.name node <;> rfl

/-! ## The verdict is that of the check -/

structure Traced.Follows {α : Type} (limit : Nat) (traced : Traced α)
    (checked : Checked Violation α) : Prop where
  verdict : traced.verdict = checked
  events : traced.events = checked.events limit

namespace Traced.Follows

variable {α : Type} {limit : Nat}

theorem ofChecked (checked : Checked Violation α) :
    (Traced.ofChecked limit checked).Follows limit checked := ⟨rfl, rfl⟩

theorem within {traced : Traced α} {checked : Checked Violation α}
    (h : traced.Follows limit checked) (segment : String) :
    (traced.within segment).Follows limit (checked.within segment) := by
  obtain ⟨rfl, hevents⟩ := h
  constructor
  · rfl
  · rw [Traced.within, hevents]
    cases traced.verdict <;> rfl

theorem withinIndex {traced : Traced α} {checked : Checked Violation α}
    (h : traced.Follows limit checked) (key : String) (index : Nat) :
    (traced.withinIndex key index).Follows limit (checked.withinIndex key index) :=
  (h.within (indexText index)).within key

theorem andThen {first second : Traced Unit} {checked checked' : Verdict Violation}
    (hfirst : first.Follows limit checked) (hsecond : second.Follows limit checked') :
    (first >>= fun _ => second).Follows limit (TreeSyntax.andThen checked checked') := by
  obtain ⟨rfl, hevents⟩ := hfirst
  obtain ⟨visits, events, verdict⟩ := first
  cases verdict with
  | error failure => exact ⟨rfl, hevents⟩
  | ok value =>
      obtain rfl : events = [] := hevents
      exact ⟨hsecond.verdict, hsecond.events⟩

end Traced.Follows

section

variable {limit : Nat} {tracePart : NodeType → Json → Traced Unit}
  {checkPart : NodeType → Json → Verdict Violation}

private theorem follows_traceItems {traceItem : Json → Traced Unit}
    {checkItem : Json → Verdict Violation}
    (h : ∀ item, (traceItem item).Follows limit (checkItem item)) (key : String) (index : Nat)
    (items : List Json) :
    (traceItems key traceItem index items).Follows limit
      (checkItems key checkItem index items) := by
  induction items generalizing index with
  | nil => exact .ofChecked (.ok ())
  | cons item items ih =>
      rw [traceItems, checkItems_cons]
      exact ((h item).withinIndex key index).andThen (ih (index + 1))

private theorem follows_traceField
    (h : ∀ type node, (tracePart type node).Follows limit (checkPart type node))
    (field : FieldRule) (value : Json) :
    (traceField tracePart field value).Follows limit (checkField checkPart field value) := by
  simp only [traceField, checkField]
  cases field.isList with
  | false => exact (h field.type value).within field.key
  | true =>
      rw [if_pos rfl, if_pos rfl]
      cases value with
      | array items => exact follows_traceItems (h field.type) field.key 0 items
      | _ => exact ⟨rfl, rfl⟩

private theorem follows_traceFields
    (h : ∀ type node, (tracePart type node).Follows limit (checkPart type node))
    {members : Members} {fields : List FieldRule}
    (hkeys : ∀ field ∈ fields, field.key ∈ Entries.names members) :
    (traceFields tracePart members fields).Follows limit
      (checkFields checkPart members fields) := by
  induction fields with
  | nil => exact .ofChecked (.ok ())
  | cons field fields ih =>
      obtain ⟨hkey, hkeys⟩ := List.forall_mem_cons.mp hkeys
      rw [traceFields_cons hkey, checkFields_cons checkPart hkey]
      exact (follows_traceField h field _).andThen (ih hkeys)

private theorem follows_traceRecord
    (h : ∀ type node, (tracePart type node).Follows limit (checkPart type node))
    (fields : List FieldRule) (node : Json) :
    (traceRecord tracePart fields node).Follows limit (checkRecord checkPart fields node) := by
  rcases expectKeys_cases (fields.map FieldRule.key) node with
    ⟨members, rfl, hkeys, hok⟩ | ⟨reason, -, hfail⟩
  · have hpresent : ∀ field ∈ fields, field.key ∈ Entries.names members :=
      fun field hfield => (hkeys field.key).mpr (List.mem_map_of_mem hfield)
    rw [traceRecord_of_ok hok, checkRecord, hok]
    exact follows_traceFields h hpresent
  · rw [traceRecord_of_error limit hfail, checkRecord, hfail]
    exact .ofChecked (.error _)

private theorem follows_traceUnion
    (h : ∀ type node, (tracePart type node).Follows limit (checkPart type node))
    (tags : List NodeType) (node : Json) :
    (traceUnion tracePart tags node).Follows limit (checkUnion checkPart tags node) := by
  cases htagged : Tagged.ofNode node with
  | error failure =>
      rw [traceUnion_of_error limit htagged, checkUnion, htagged]
      exact .ofChecked (.error failure)
  | ok tagged =>
      simp only [traceUnion_of_ok htagged, tracePayload, checkUnion, htagged]
      cases allowedTag? tags tagged.tag with
      | none => exact ⟨rfl, rfl⟩
      | some type => exact (h type tagged.payload).within payloadKey

end

private theorem follows_traceReference {limit : Nat}
    {tracePart : NodeType → Bool → Json → Traced Unit}
    {checkPart : NodeType → Bool → Json → Verdict Violation}
    (h : ∀ type resolved node,
      (tracePart type resolved node).Follows limit (checkPart type resolved node))
    (expected : NodeType) (node : Json) :
    (traceReference tracePart expected node).Follows limit
      (checkReference checkPart expected node) := by
  cases hreference : Reference.ofNode node with
  | error failure =>
      rw [traceReference_of_error limit hreference, checkReference, hreference]
      exact .ofChecked (.error failure)
  | ok reference =>
      rw [traceReference_of_ok hreference, checkReference, hreference]
      cases reference with
      | direct node => exact h expected true node
      | bound index => exact (h .integerLiteral false index).within referenceKey
      | inlined node => exact (h expected true node).within referenceKey

/-- The depth and what is left of the allowance make up the limit and one step more. -/
theorem follows_trace {limit allowance depth : Nat} (hdepth : depth + allowance = limit + 1)
    (expected : NodeType) (resolved : Bool) (node : Json) :
    (trace allowance depth expected resolved node).Follows limit
      (check allowance expected resolved node) := by
  induction allowance generalizing depth expected resolved node with
  | zero =>
      obtain rfl : depth = limit + 1 := hdepth
      exact ⟨rfl, rfl⟩
  | succ allowance ih =>
      have hpart : ∀ type resolved node, (trace allowance (depth + 1) type resolved node).Follows
          limit (check allowance type resolved node) := ih (by omega)
      suffices hrule : (traceRule (trace allowance (depth + 1)) expected resolved node).Follows
          limit (check (allowance + 1) expected resolved node) from ⟨hrule.verdict, hrule.events⟩
      rw [traceRule, check_succ]
      rcases NodeType.rule_cases expected resolved with
        ⟨pattern, hrule⟩ | hopen | ⟨tags, hrule, hclosed⟩ | ⟨fields, hrule, hclosed⟩
      · rw [NodeType.dispatch_primitive hrule, NodeType.dispatch_primitive hrule,
          tracePrimitive_eq limit]
        exact .ofChecked _
      · rw [NodeType.dispatch_reference hopen, NodeType.dispatch_reference hopen]
        exact follows_traceReference hpart expected node
      · rw [NodeType.dispatch_union hrule hclosed, NodeType.dispatch_union hrule hclosed]
        exact follows_traceUnion (fun type => hpart type false) tags node
      · rw [NodeType.dispatch_record hrule hclosed, NodeType.dispatch_record hrule hclosed]
        exact follows_traceRecord (fun type => hpart type false) fields node

theorem verdict_trace (allowance depth : Nat) (expected : NodeType) (resolved : Bool)
    (node : Json) :
    (trace allowance depth expected resolved node).verdict =
      check allowance expected resolved node := by
  cases allowance with
  | zero => rfl
  | succ allowance =>
      exact (follows_trace (Nat.add_succ depth allowance) expected resolved node).verdict

theorem follows_traceProgram (options : Options) (program : Json) :
    (traceProgram options program).Follows options.maxDepth (checkProgram options program) :=
  (follows_trace (Nat.zero_add _) .program false program).within Outcome.rootSegment

theorem verdict_traceProgram (options : Options) (program : Json) :
    (traceProgram options program).verdict = checkProgram options program :=
  (follows_traceProgram options program).verdict

/-! ## Calls are made at reached positions -/

theorem Traced.mem_visits_andThen {first second : Traced Unit} {visit : Visit}
    (h : visit ∈ (first >>= fun _ => second).visits) :
    visit ∈ first.visits ∨ visit ∈ second.visits := by
  obtain ⟨visits, events, verdict⟩ := first
  cases verdict with
  | error failure => exact .inl h
  | ok value => exact List.mem_append.mp h

theorem Traced.mem_visits_within {traced : Traced Unit} {segment : String} {visit : Visit}
    (h : visit ∈ (traced.within segment).visits) :
    ∃ inner ∈ traced.visits, visit = inner.below [segment] := by
  obtain ⟨inner, hinner, rfl⟩ := List.mem_map.mp h
  exact ⟨inner, hinner, rfl⟩

theorem mem_visits_traceItems {traceItem : Json → Traced Unit} {key : String} {index : Nat}
    {items : List Json} {visit : Visit}
    (h : visit ∈ (traceItems key traceItem index items).visits) :
    ∃ place item inner, items[place]? = some item ∧ inner ∈ (traceItem item).visits ∧
      visit = inner.below [key, indexText (index + place)] := by
  induction items generalizing index with
  | nil => cases h
  | cons item items ih =>
      rcases Traced.mem_visits_andThen h with hitem | hitems
      · obtain ⟨_, hmiddle, rfl⟩ := Traced.mem_visits_within hitem
        obtain ⟨inner, hinner, rfl⟩ := Traced.mem_visits_within hmiddle
        exact ⟨0, item, inner, rfl, hinner, rfl⟩
      · obtain ⟨place, other, inner, hplace, hinner, rfl⟩ := ih hitems
        refine ⟨place + 1, other, inner, hplace, hinner, ?_⟩
        rw [Nat.add_right_comm, Nat.add_assoc]

section

variable {tracePart : NodeType → Json → Traced Unit} {visit : Visit}

theorem mem_visits_traceField {field : FieldRule} {value : Json}
    (h : visit ∈ (traceField tracePart field value).visits) :
    (field.isList = false ∧
      ∃ inner ∈ (tracePart field.type value).visits, visit = inner.below [field.key]) ∨
    (field.isList = true ∧ ∃ items, value = .array items ∧
      ∃ index item inner, items[index]? = some item ∧
        inner ∈ (tracePart field.type item).visits ∧
        visit = inner.below [field.key, indexText index]) := by
  simp only [traceField] at h
  cases hlist : field.isList with
  | false =>
      simp only [hlist] at h
      exact .inl ⟨rfl, Traced.mem_visits_within h⟩
  | true =>
      simp only [hlist, if_true] at h
      cases value with
      | array items =>
          obtain ⟨index, item, inner, hitem, hinner, rfl⟩ := mem_visits_traceItems h
          rw [Nat.zero_add]
          exact .inr ⟨rfl, items, rfl, index, item, inner, hitem, hinner, rfl⟩
      | _ => cases h

theorem mem_visits_traceFields {members : Members} {fields : List FieldRule}
    (hkeys : ∀ field ∈ fields, field.key ∈ Entries.names members)
    (h : visit ∈ (traceFields tracePart members fields).visits) :
    ∃ field ∈ fields,
      visit ∈ (traceField tracePart field (valueAt members field.key)).visits := by
  induction fields with
  | nil => cases h
  | cons field fields ih =>
      obtain ⟨hkey, hkeys⟩ := List.forall_mem_cons.mp hkeys
      rw [traceFields_cons hkey] at h
      rcases Traced.mem_visits_andThen h with hfirst | hrest
      · exact ⟨field, List.mem_cons_self, hfirst⟩
      · obtain ⟨other, hother, hvisit⟩ := ih hkeys hrest
        exact ⟨other, List.mem_cons_of_mem field hother, hvisit⟩

end

def VisitedBelow (tracePart : NodeType → Bool → Json → Traced Unit) (position : Position)
    (visit : Visit) : Prop :=
  ∃ segments next inner, Step position segments next ∧
    inner ∈ (tracePart next.type next.resolved next.node).visits ∧ visit = inner.below segments

section

variable {tracePart : NodeType → Bool → Json → Traced Unit} {type : NodeType} {resolved : Bool}
  {node : Json} {visit : Visit}

private theorem visitedBelow_of_mem_traceReference (hvariable : type.isVariable = true)
    (h : visit ∈ (traceReference tracePart type node).visits) :
    VisitedBelow tracePart ⟨type, false, node⟩ visit := by
  cases hreference : Reference.ofNode node with
  | error failure =>
      rw [traceReference_of_error 0 hreference] at h
      cases h
  | ok reference =>
      rw [traceReference_of_ok hreference] at h
      have hstep := Step.of_reference hvariable hreference
      cases reference with
      | direct inner => exact ⟨_, _, visit, hstep, h, rfl⟩
      | bound index =>
          obtain ⟨inner, hinner, rfl⟩ := Traced.mem_visits_within h
          exact ⟨_, _, inner, hstep, hinner, rfl⟩
      | inlined content =>
          obtain ⟨inner, hinner, rfl⟩ := Traced.mem_visits_within h
          exact ⟨_, _, inner, hstep, hinner, rfl⟩

private theorem visitedBelow_of_mem_traceUnion {tags : List NodeType}
    (hrule : type.rule = .union tags) (hclosed : type.allowsReference resolved = false)
    (h : visit ∈ (traceUnion (fun part => tracePart part false) tags node).visits) :
    VisitedBelow tracePart ⟨type, resolved, node⟩ visit := by
  rcases Tagged.ofNode_cases node with ⟨members, rfl, hkeys, hok⟩ | ⟨reason, hfault, hfail⟩
  · simp only [traceUnion_of_ok hok, tracePayload] at h
    cases hallowed : allowedTag? tags (valueAt members tagKey).text? with
    | none =>
        simp only [hallowed] at h
        cases h
    | some tag =>
        simp only [hallowed] at h
        obtain ⟨inner, hinner, rfl⟩ := Traced.mem_visits_within h
        exact ⟨_, _, inner, .of_allowedTag? hrule hclosed hkeys hallowed, hinner, rfl⟩
  · rw [traceUnion_of_error 0 hfail] at h
    cases h

private theorem visitedBelow_of_mem_traceRecord {fields : List FieldRule}
    (hrule : type.rule = .record fields) (hclosed : type.allowsReference resolved = false)
    (h : visit ∈ (traceRecord (fun part => tracePart part false) fields node).visits) :
    VisitedBelow tracePart ⟨type, resolved, node⟩ visit := by
  rcases expectKeys_cases (fields.map FieldRule.key) node with
    ⟨members, rfl, hkeys, hok⟩ | ⟨reason, hfault, hfail⟩
  · rw [traceRecord_of_ok hok] at h
    have hpresent : ∀ field ∈ fields, field.key ∈ Entries.names members :=
      fun field hfield => (hkeys field.key).mpr (List.mem_map_of_mem hfield)
    obtain ⟨field, hfield, hvisit⟩ := mem_visits_traceFields hpresent h
    rcases mem_visits_traceField hvisit with
      ⟨hsingle, inner, hinner, rfl⟩ | ⟨hlist, items, hvalue, index, item, inner, hitem, hinner, rfl⟩
    · exact ⟨_, _, inner, .of_field hrule hclosed hkeys hfield hsingle, hinner, rfl⟩
    · exact ⟨_, _, inner, .of_element hrule hclosed hkeys hfield hlist hvalue hitem, hinner, rfl⟩
  · rw [traceRecord_of_error 0 hfail] at h
    cases h

private theorem visitedBelow_of_mem_traceRule {position : Position}
    (h : visit ∈ (traceRule tracePart position.type position.resolved position.node).visits) :
    VisitedBelow tracePart position visit := by
  obtain ⟨type, resolved, node⟩ := position
  rcases NodeType.rule_cases type resolved with
    ⟨pattern, hrule⟩ | hopen | ⟨tags, hrule, hclosed⟩ | ⟨fields, hrule, hclosed⟩
  · rw [traceRule, NodeType.dispatch_primitive hrule, tracePrimitive_eq 0] at h
    cases h
  · rw [traceRule, NodeType.dispatch_reference hopen] at h
    obtain ⟨hvariable, rfl⟩ := NodeType.allowsReference_iff.mp hopen
    exact visitedBelow_of_mem_traceReference hvariable h
  · rw [traceRule, NodeType.dispatch_union hrule hclosed] at h
    exact visitedBelow_of_mem_traceUnion hrule hclosed h
  · rw [traceRule, NodeType.dispatch_record hrule hclosed] at h
    exact visitedBelow_of_mem_traceRecord hrule hclosed h

end

theorem reaches_of_mem_trace {allowance depth : Nat} {position : Position} {visit : Visit}
    (h : visit ∈ (trace allowance depth position.type position.resolved position.node).visits) :
    ∃ steps, Reaches position visit.path steps visit.position ∧ visit.depth = depth + steps := by
  induction allowance generalizing depth position visit with
  | zero =>
      obtain rfl := List.mem_singleton.mp h
      exact ⟨0, .refl _, rfl⟩
  | succ allowance ih =>
      rw [visits_trace_succ] at h
      rcases List.mem_cons.mp h with rfl | hinner
      · exact ⟨0, .refl _, rfl⟩
      · obtain ⟨segments, next, inner, hstep, hvisit, rfl⟩ := visitedBelow_of_mem_traceRule hinner
        obtain ⟨steps, hreaches, hdepth⟩ := ih hvisit
        refine ⟨steps + 1, .step hstep hreaches, ?_⟩
        simp only [Visit.below, hdepth]
        omega

theorem reaches_of_mem_traceProgram {options : Options} {program : Json} {visit : Visit}
    (h : visit ∈ (traceProgram options program).visits) :
    ∃ path, visit.path = Outcome.rootSegment :: path ∧
      Reaches ⟨.program, false, program⟩ path visit.depth visit.position := by
  obtain ⟨inner, hinner, rfl⟩ := Traced.mem_visits_within h
  obtain ⟨steps, hreaches, hdepth⟩ : ∃ steps,
      Reaches ⟨.program, false, program⟩ inner.path steps inner.position ∧
        inner.depth = 0 + steps := reaches_of_mem_trace hinner
  rw [Nat.zero_add] at hdepth
  rw [← hdepth] at hreaches
  exact ⟨inner.path, rfl, hreaches⟩

end TreeSyntax
