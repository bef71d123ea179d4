import TreeSyntax.Proofs.Locality
import TreeSyntax.Proofs.Transparency

/-!
# Lists of parts

A list is checked element by element, and the first element that fails decides.  So the outcome for
two lists in one is that for the first list, unless it is accepted; then it is that for the second
one, with the elements counted on from the first.
-/

namespace TreeSyntax

/-! ## Counting on -/

/-- The decimal index that lies so many places after the one that the segment spells. -/
def indexAfter (count : Nat) (segment : String) : String :=
  indexText (Nat.ofDigitChars 10 segment.toList 0 + count)

theorem indexAfter_indexText (count index : Nat) :
    indexAfter count (indexText index) = indexText (index + count) := by
  have hvalue : Nat.ofDigitChars 10 (indexText index).toList 0 = index := by
    rw [indexText, String.toList_ofList, Nat.ofDigitChars_ten_toDigits]
  rw [indexAfter, hvalue]

def Failure.countOn {κ : Type} (place count : Nat) (failure : Failure κ) : Failure κ :=
  { failure with path := failure.path.modify place (indexAfter count) }

def Outcome.countOn (place count : Nat) (outcome : Outcome) : Outcome :=
  { outcome with errorPath := outcome.errorPath.modify place (indexAfter count) }

private theorem modify_append_right {α : Type} (first second : List α) (place : Nat)
    (change : α → α) : (first ++ second).modify (first.length + place) change =
      first ++ second.modify place change := by
  induction first with
  | nil => simp
  | cons item first ih =>
      rw [List.length_cons, Nat.succ_add, List.cons_append, List.modify_succ_cons, ih,
        List.cons_append]

private theorem Failures.outcome_map_countOn (above : List String) (place count : Nat)
    (failures : Failures) :
    Failures.outcome above (failures.map (Failure.countOn place count)) =
      (failures.outcome above).countOn (above.length + place) count := by
  cases failures with
  | nil => simp [Outcome.countOn, Outcome.valid]
  | cons failure failures =>
      simp [Failure.countOn, Outcome.countOn, Outcome.invalid, modify_append_right]

theorem Failures.outcome_append (above : List String) (first second : Failures) :
    Failures.outcome above (first ++ second) =
      if (first.outcome above).isValid then second.outcome above else first.outcome above := by
  cases first <;> rfl

/-! ## Elements of a list -/

section

variable {key : String} {collectItem : Json → Failures}

private theorem Failures.withinIndex_add (failures : Failures) (index count : Nat) :
    failures.withinIndex key (index + count) =
      (failures.withinIndex key index).map (Failure.countOn 1 count) := by
  simp only [Failures.withinIndex, Failures.within, List.map_map]
  refine List.map_congr_left fun failure _ => ?_
  simp [Failure.within, Failure.countOn, indexAfter_indexText]

/-- The failures of later elements are those of the same elements from the start, counted on. -/
private theorem flatMap_zipIdx_eq_map_countOn (items : List Json) (count : Nat) :
    ((items.zipIdx count).flatMap fun item => (collectItem item.1).withinIndex key item.2) =
      (collectItems key collectItem items).map (Failure.countOn 1 count) := by
  have hplaces : items.zipIdx count = items.zipIdx.map (Prod.map id (· + count)) := by
    rw [List.map_snd_add_zipIdx_eq_zipIdx, Nat.add_zero]
  rw [hplaces, List.flatMap_map, collectItems, List.map_flatMap]
  simp only [Prod.map_fst, Prod.map_snd, id_eq, Failures.withinIndex_add]

private theorem collectItems_append_list (first second : List Json) :
    collectItems key collectItem (first ++ second) =
      collectItems key collectItem first ++
        (collectItems key collectItem second).map (Failure.countOn 1 first.length) := by
  rw [← flatMap_zipIdx_eq_map_countOn, collectItems, collectItems, List.zipIdx_append,
    List.flatMap_append, Nat.zero_add]

theorem outcome_collectItems_append (above : List String) (first second : List Json) :
    Failures.outcome above (collectItems key collectItem (first ++ second)) =
      if (Failures.outcome above (collectItems key collectItem first)).isValid then
        (Failures.outcome above (collectItems key collectItem second)).countOn (above.length + 1)
          first.length
      else Failures.outcome above (collectItems key collectItem first) := by
  rw [collectItems_append_list, Failures.outcome_append, Failures.outcome_map_countOn]

end

/-! ## A list in a record -/

def withList (members : Members) (key : String) (items : List Json) : Json :=
  .object (Entries.modify members key fun _ => .array items)

def outcomeAt (limit depth : Nat) (type : NodeType) (resolved : Bool) (node : Json) : Outcome :=
  .ofVerdict ((checkAt limit depth type resolved node).mapReason Violation.code)

theorem outcomeAt_eq (limit depth : Nat) (type : NodeType) (resolved : Bool) (node : Json) :
    outcomeAt limit depth type resolved node =
      (collect (limit + 1 - depth) type resolved node).outcome [] := by
  rw [outcomeAt, checkAt_eq_check]
  exact (stopsAtFirst_check _ type resolved node).outcome

section

variable {type : NodeType} {fields : List FieldRule} {field : FieldRule} {members : Members}
  (hrule : type.rule = .record fields) (hfield : field ∈ fields) (hlist : field.isList = true)
  (hkeys : HasExactKeys members (fields.map FieldRule.key))

include hfield hlist hkeys

private theorem collectField_withList (collectPart : NodeType → Json → Failures)
    (items : List Json) :
    collectField collectPart (Entries.modify members field.key fun _ => .array items) field =
      collectItems field.key (collectPart field.type) items := by
  have hvalue := find?_eq_valueAt ((hkeys field.key).mpr (List.mem_map_of_mem hfield))
  simp [collectField, hlist, valueAt_modify_self hvalue, Json.items?]

include hrule

private theorem exists_collectItems_of_closed {allowance : Nat} {resolved : Bool}
    (hclosed : type.allowsReference resolved = false)
    (haccepted : collect allowance type resolved (withList members field.key []) = []) :
    ∃ left, ∀ items, collect allowance type resolved (withList members field.key items) =
      collectItems field.key (collect left field.type false) items := by
  cases allowance with
  | zero => cases haccepted
  | succ allowance =>
      obtain ⟨earlier, later, rfl⟩ := List.append_of_mem hfield
      have hparts (items : List Json) := collect_modify_field allowance hrule hclosed hkeys
        fun _ => .array items
      rw [withList, hparts, List.append_eq_nil_iff, List.append_eq_nil_iff] at haccepted
      obtain ⟨hearlier, -, hlater⟩ := haccepted
      refine ⟨allowance, fun items => ?_⟩
      rw [withList, hparts, hearlier, hlater, List.nil_append, List.append_nil,
        collectField_withList hfield hlist hkeys]

/-- When the rest of a record is accepted, its failures are those of the list. -/
theorem exists_collectItems {allowance : Nat} {resolved : Bool}
    (haccepted : collect allowance type resolved (withList members field.key []) = []) :
    ∃ left, ∀ items, collect allowance type resolved (withList members field.key items) =
      collectItems field.key (collect left field.type false) items := by
  cases hopen : type.allowsReference resolved with
  | false => exact exists_collectItems_of_closed hrule hfield hlist hkeys hopen haccepted
  | true =>
      obtain ⟨hvariable, rfl⟩ := NodeType.allowsReference_iff.mp hopen
      have hnode (items : List Json) : isReference (withList members field.key items) = false :=
        isReference_of_notMem hkeys.modify (NodeType.referenceFlagKey_notMem hvariable hrule)
      cases allowance with
      | zero => cases haccepted
      | succ allowance =>
          simp only [collect_direct allowance hvariable (hnode _)] at haccepted ⊢
          exact exists_collectItems_of_closed hrule hfield hlist hkeys
            type.allowsReference_resolved haccepted

/-- The outcome for two lists in one, in a record of which everything else is accepted. -/
theorem outcomeAt_withList_append {limit depth : Nat} {resolved : Bool}
    (haccepted : checkAt limit depth type resolved (withList members field.key []) = .ok ())
    (first second : List Json) :
    outcomeAt limit depth type resolved (withList members field.key (first ++ second)) =
      if (outcomeAt limit depth type resolved (withList members field.key first)).isValid then
        (outcomeAt limit depth type resolved (withList members field.key second)).countOn 1
          first.length
      else outcomeAt limit depth type resolved (withList members field.key first) := by
  rw [checkAt_eq_check, (stopsAtFirst_check _ type resolved _).eq_ok_iff] at haccepted
  obtain ⟨left, hcollect⟩ := exists_collectItems hrule hfield hlist hkeys haccepted
  simp only [outcomeAt_eq, hcollect, outcome_collectItems_append, List.length_nil, Nat.zero_add]

end

/-! ## The functions of a program -/

def programOf (functions : List Json) : Json :=
  .object [("functions", .array functions)]

section

variable (options : Options)

theorem exists_collectProgram_programOf :
    ∃ left, ∀ functions, collectProgram options (programOf functions) =
      collectItems "functions" (collect left .functionDefinition false) functions := by
  have hkeys : HasExactKeys [("functions", .array [])]
      ([FieldRule.many "functions" .functionDefinition].map FieldRule.key) := fun _ => Iff.rfl
  exact exists_collectItems rfl List.mem_cons_self rfl hkeys rfl

theorem validateSyntax_programOf_append (first second : List Json) :
    validateSyntax options (programOf (first ++ second)) =
      if (validateSyntax options (programOf first)).isValid then
        (validateSyntax options (programOf second)).countOn 2 first.length
      else validateSyntax options (programOf first) := by
  obtain ⟨left, hcollect⟩ := exists_collectProgram_programOf options
  simp only [validateSyntax_eq_outcome, hcollect, outcome_collectItems_append, List.length_cons,
    List.length_nil, Nat.zero_add]

theorem isValid_programOf_iff (functions : List Json) :
    (validateSyntax options (programOf functions)).isValid = true ↔
      ∀ function ∈ functions, (validateSyntax options (programOf [function])).isValid = true := by
  obtain ⟨left, hcollect⟩ := exists_collectProgram_programOf options
  simp only [validateSyntax_eq_outcome, hcollect, Failures.isValid_outcome_iff,
    collectItems_eq_nil_iff, List.forall_mem_singleton]

/-- A definition that fails alone does so at the first place. -/
private theorem exists_path_of_invalid_single {function : Json}
    (hinvalid : (validateSyntax options (programOf [function])).isValid = false) :
    ∃ code rest, validateSyntax options (programOf [function]) =
      .invalid code (Outcome.rootSegment :: "functions" :: indexText 0 :: rest) := by
  obtain ⟨left, hcollect⟩ := exists_collectProgram_programOf options
  have hsingle : collectProgram options (programOf [function]) =
      (collect left .functionDefinition false function).withinIndex "functions" 0 := by
    rw [hcollect]
    exact List.append_nil _
  rw [validateSyntax_eq_outcome, hsingle] at hinvalid ⊢
  cases hfailures : collect left .functionDefinition false function with
  | nil =>
      rw [hfailures] at hinvalid
      cases hinvalid
  | cons failure failures => exact ⟨failure.reason, failure.path, rfl⟩

private theorem exists_first_invalid {functions : List Json}
    (hinvalid : (validateSyntax options (programOf functions)).isValid = false) :
    ∃ before function after, functions = before ++ function :: after ∧
      (∀ other ∈ before, (validateSyntax options (programOf [other])).isValid = true) ∧
      (validateSyntax options (programOf [function])).isValid = false := by
  cases hfirst : functions.find? fun function =>
      !(validateSyntax options (programOf [function])).isValid with
  | none =>
      have hvalid := (isValid_programOf_iff options functions).mpr (by simpa using hfirst)
      rw [hvalid] at hinvalid
      cases hinvalid
  | some function =>
      obtain ⟨hfunction, before, after, hsplit, hbefore⟩ := List.find?_eq_some_iff_append.mp hfirst
      exact ⟨before, function, after, hsplit, by simpa using hbefore, by simpa using hfunction⟩

/-- The index that is reported counts the definitions before the first one that fails. -/
private theorem exists_least_invalid {functions : List Json}
    (hinvalid : (validateSyntax options (programOf functions)).isValid = false) :
    ∃ before function after code rest, functions = before ++ function :: after ∧
      (∀ other ∈ before, (validateSyntax options (programOf [other])).isValid = true) ∧
      validateSyntax options (programOf [function]) =
        .invalid code (Outcome.rootSegment :: "functions" :: indexText 0 :: rest) ∧
      validateSyntax options (programOf functions) =
        .invalid code
          (Outcome.rootSegment :: "functions" :: indexText before.length :: rest) := by
  obtain ⟨before, function, after, rfl, hbefore, hfunction⟩ := exists_first_invalid options hinvalid
  obtain ⟨code, rest, hsingle⟩ := exists_path_of_invalid_single options hfunction
  refine ⟨before, function, after, code, rest, rfl, hbefore, hsingle, ?_⟩
  have hvalid := (isValid_programOf_iff options before).mpr hbefore
  have hrest : validateSyntax options (programOf (function :: after)) =
      validateSyntax options (programOf [function]) := by
    rw [← List.singleton_append, validateSyntax_programOf_append, hfunction]
    rfl
  rw [validateSyntax_programOf_append, if_pos hvalid, hrest, hsingle]
  simp only [Outcome.countOn, Outcome.invalid, List.modify_succ_cons, List.modify_zero_cons,
    indexAfter_indexText, Nat.zero_add]

end

/-- Two lists of functions in one program, and two lists in one field of a record that is accepted
with an empty one: the first list decides if it fails, and otherwise the second one, whose indices
are counted on from the first.  So each function can be judged alone. -/
theorem list_fields_concatenate :
    (∀ (options : Options) (first second : List Json),
      validateSyntax options (programOf (first ++ second)) =
        if (validateSyntax options (programOf first)).isValid then
          (validateSyntax options (programOf second)).countOn 2 first.length
        else validateSyntax options (programOf first)) ∧
    (∀ (options : Options) (functions : List Json),
      ((validateSyntax options (programOf functions)).isValid = true ↔
        ∀ function ∈ functions,
          (validateSyntax options (programOf [function])).isValid = true) ∧
      ((validateSyntax options (programOf functions)).isValid = false →
        ∃ before function after code rest, functions = before ++ function :: after ∧
          (∀ other ∈ before, (validateSyntax options (programOf [other])).isValid = true) ∧
          validateSyntax options (programOf [function]) =
            .invalid code (Outcome.rootSegment :: "functions" :: indexText 0 :: rest) ∧
          validateSyntax options (programOf functions) =
            .invalid code
              (Outcome.rootSegment :: "functions" :: indexText before.length :: rest))) ∧
    ∀ {type : NodeType} {fields : List FieldRule} {field : FieldRule} {members : Members},
      type.rule = .record fields → field ∈ fields → field.isList = true →
      HasExactKeys members (fields.map FieldRule.key) → ∀ {limit depth : Nat} {resolved : Bool},
      checkAt limit depth type resolved (withList members field.key []) = .ok () →
      ∀ first second : List Json,
        outcomeAt limit depth type resolved (withList members field.key (first ++ second)) =
          if (outcomeAt limit depth type resolved (withList members field.key first)).isValid then
            (outcomeAt limit depth type resolved (withList members field.key second)).countOn 1
              first.length
          else outcomeAt limit depth type resolved (withList members field.key first) :=
  ⟨validateSyntax_programOf_append,
    fun options functions =>
      ⟨isValid_programOf_iff options functions, exists_least_invalid options⟩,
    fun hrule hfield hlist hkeys => outcomeAt_withList_append hrule hfield hlist hkeys⟩

def boundBody : Members :=
  [("name", .null), ("description", .null), ("domainParams", .null), ("valueParams", .array []),
    ("domain", referenceNode (.string "true") (.string "0")),
    ("body", referenceNode (.string "true") (.string "1"))]

def namelessParam : Json := .object [("description", .null), ("name", .null)]

theorem boundBody_concatenate :
    (validateSyntax .default (programOf [.null])).isValid = false ∧
    (∃ before function after code rest, [Json.null] = before ++ function :: after ∧
      validateSyntax .default (programOf [.null]) =
        .invalid code (Outcome.rootSegment :: "functions" :: indexText before.length :: rest)) ∧
    HasExactKeys boundBody
      ["name", "description", "domainParams", "valueParams", "domain", "body"] ∧
    checkAt 3 0 .function false (withList boundBody "domainParams" []) = .ok () ∧
    outcomeAt 3 0 .function false
        (withList boundBody "domainParams" ([namelessParam] ++ [namelessParam, .null])) =
      .invalid .missingKey ["domainParams", "2"] := by
  have hinvalid : (validateSyntax .default (programOf [.null])).isValid = false := by decide
  obtain ⟨before, function, after, code, rest, hsplit, -, -, houtcome⟩ :=
    (list_fields_concatenate.2.1 .default [.null]).2 hinvalid
  have hkeys : HasExactKeys boundBody
      ["name", "description", "domainParams", "valueParams", "domain", "body"] := fun _ => Iff.rfl
  have haccepted : checkAt 3 0 .function false (withList boundBody "domainParams" []) = .ok () := by
    rw [checkAt_eq_check]
    rfl
  refine ⟨hinvalid, ⟨before, function, after, code, rest, hsplit, houtcome⟩, hkeys, haccepted, ?_⟩
  have hfield : FieldRule.many "domainParams" .domainParam ∈ [.one "name" .stringLiteral,
      .one "description" .stringLiteral, .many "domainParams" .domainParam,
      .many "valueParams" .valueParam, .one "domain" .domain, .one "body" .value] := by decide
  have happend := list_fields_concatenate.2.2 rfl hfield rfl hkeys haccepted
    [namelessParam] [namelessParam, .null]
  refine happend.trans ?_
  simp only [outcomeAt, checkAt_eq_check]
  decide

end TreeSyntax
