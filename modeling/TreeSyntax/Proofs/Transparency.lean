import TreeSyntax.Proofs.Derivation
import TreeSyntax.Proofs.Edit

/-!
# References stand for their nodes

At a position where a reference may stand, a node may be given in place, inside a reference.  Then
the same is found in it, below the key of the reference, and nothing changes around it.  A reference
inside a reference is no node, and an index may replace any node of a valid program.
-/

namespace TreeSyntax

/-! ## What is collected at a reference -/

theorem hasExactKeys_reference (flag content : Json) :
    HasExactKeys [(referenceFlagKey, flag), (referenceKey, content)] referenceKeys := by
  intro key
  rfl

section

variable {type : NodeType} {flag : Json} (hvariable : type.isVariable = true)

include hvariable

theorem collect_referenceNode (hflag : flag ≠ .string "true") (allowance : Nat) (content : Json) :
    collect (allowance + 1) type false (referenceNode flag content) =
      Failures.within referenceKey (collect allowance type true content) :=
  collect_inlined allowance hvariable (hasExactKeys_reference flag content) rfl hflag rfl

theorem collect_referenceNode_true (allowance : Nat) (index : Json) :
    collect (allowance + 1) type false (referenceNode (.string "true") index) =
      Failures.within referenceKey (collect allowance .integerLiteral false index) :=
  collect_bound allowance hvariable (hasExactKeys_reference (.string "true") index) rfl rfl

theorem NodeType.referenceFlagKey_notMem {fields : List FieldRule}
    (hrule : type.rule = .record fields) : referenceFlagKey ∉ fields.map FieldRule.key := by
  cases type <;> simp only [rule, Rule.record.injEq, reduceCtorEq] at hrule <;>
    simp only [isVariable, Bool.false_eq_true] at hvariable
  subst hrule
  decide

end

private theorem keyFault?_of_isReference {keys : List String} {node : Json}
    (hnode : isReference node = true) (hkeys : referenceFlagKey ∉ keys) :
    ∃ code, keyFault? keys node = some code ∧ (code = .missingKey ∨ code = .extraKey) := by
  cases hfault : keyFault? keys node with
  | some code => exact ⟨code, rfl, keyFault?_eq_some hfault⟩
  | none =>
      obtain ⟨members, rfl, hexact⟩ := keyFault?_eq_none_iff.mp hfault
      have hflag := (hexact referenceFlagKey).mp (Entries.has_eq_true_iff.mp hnode)
      exact absurd hflag hkeys

/-- Where a reference was followed already, another one has the wrong keys. -/
theorem collect_resolved_of_isReference {type : NodeType} {node : Json}
    (hvariable : type.isVariable = true) (hnode : isReference node = true) (allowance : Nat) :
    ∃ code, collect (allowance + 1) type true node = [.here code] ∧
      (code = .missingKey ∨ code = .extraKey) := by
  rw [collect_succ]
  rcases NodeType.rule_cases type true with
    ⟨pattern, hrule⟩ | hopen | ⟨tags, hrule, hclosed⟩ | ⟨fields, hrule, hclosed⟩
  · exact absurd hrule (NodeType.rule_ne_primitive hvariable pattern)
  · obtain ⟨-, hresolved⟩ := NodeType.allowsReference_iff.mp hopen
    cases hresolved
  · obtain ⟨code, hfault, hcode⟩ : ∃ code, keyFault? taggedKeys node = some code ∧
        (code = .missingKey ∨ code = .extraKey) := keyFault?_of_isReference hnode (by decide)
    rw [NodeType.dispatch_union hrule hclosed]
    exact ⟨code, collectKeyed_of_keyFault? hfault, hcode⟩
  · obtain ⟨code, hfault, hcode⟩ :=
      keyFault?_of_isReference hnode (NodeType.referenceFlagKey_notMem hvariable hrule)
    rw [NodeType.dispatch_record hrule hclosed]
    exact ⟨code, collectKeyed_of_keyFault? hfault, hcode⟩

/-- What stands at a reference takes a step of its own. -/
theorem collect_one_ne_nil {type : NodeType} (hvariable : type.isVariable = true) (node : Json) :
    collect 1 type false node ≠ [] := by
  intro hnone
  cases hnode : isReference node with
  | false =>
      rw [collect_direct 0 hvariable hnode] at hnone
      cases hnone
  | true =>
      rw [collect_succ, NodeType.dispatch_variable hvariable] at hnone
      simp only [collectReference, hnode, if_true] at hnone
      obtain ⟨members, -, -, hparts⟩ := collectKeyed_eq_nil_iff.mp hnone
      split at hparts <;> cases hparts

/-! ## Indices -/

private theorem collect_primitive {type : NodeType} {pattern : Pattern}
    (hrule : type.rule = .primitive pattern) (allowance allowance' : Nat) (resolved : Bool)
    (node : Json) :
    collect (allowance + 1) type resolved node = collect (allowance' + 1) type resolved node := by
  rw [collect_succ, collect_succ, NodeType.dispatch_primitive hrule,
    NodeType.dispatch_primitive hrule]

theorem collect_index_eq_nil {index : Json}
    (h : (validateNode NodeType.integerLiteral.name false index).isValid = true)
    (allowance : Nat) : collect (allowance + 1) .integerLiteral false index = [] := by
  have hok := isValid_ofVerdict_iff.mp h
  simp only [checkNode, NodeType.ofName?_name] at hok
  rw [collect_primitive rfl allowance Options.default.maxDepth]
  exact (stopsAtFirst_check _ _ _ _).eq_ok_iff.mp hok

/-! ## Around a call -/

theorem StopsAtFirst.exists_of_cons {verdict : Verdict Violation} {failure : Failure ErrorCode}
    {failures : Failures} (h : StopsAtFirst verdict (failure :: failures)) :
    ∃ found, verdict = .error found ∧ found.map Violation.code = failure := by
  cases verdict with
  | ok value => cases h
  | error found => exact ⟨found, rfl, Except.error.inj h⟩

/-- When a call is made, no earlier part has failed. -/
theorem Surrounds.before_eq_nil {allowance depth left : Nat} {root inner : Position}
    {path : List String} {before after : Failures}
    (h : Surrounds allowance root path left inner before after) {visit : Visit}
    (hvisit : visit ∈ (trace allowance depth root.type root.resolved root.node).visits)
    (hpath : visit.path = path) : before = [] := by
  cases before with
  | nil => rfl
  | cons failure before =>
      have hstops := stopsAtFirst_check allowance root.type root.resolved root.node
      rw [h.collect_root, List.cons_append] at hstops
      obtain ⟨found, hfound, rfl⟩ := hstops.exists_of_cons
      rw [← verdict_trace allowance depth] at hfound
      -- The check ends with this failure, so the call at the path is not made after it.
      have horder := (inOrder_trace allowance depth root.type root.resolved root.node).failure
        found hfound visit hvisit
      have hearlier : Precedes root found.path path := h.earlier _ List.mem_cons_self
      rw [hpath] at horder
      rcases horder with hbegins | hprecedes
      · exact absurd hbegins hearlier.not_extends_right
      · exact absurd hprecedes hearlier.asymm

theorem exists_surrounds_of_visit {options : Options} {program : Json} {place : List String}
    {type : NodeType} {node : Json} {depth : Nat}
    (hvisit : ⟨Outcome.rootSegment :: place, ⟨type, false, node⟩, depth⟩ ∈
      (traceProgram options program).visits) (hdepth : depth ≤ options.maxDepth) :
    ∃ after, Surrounds (options.maxDepth + 1) ⟨.program, false, program⟩ place
      (options.maxDepth - depth + 1) ⟨type, false, node⟩ [] after := by
  obtain ⟨path, hpath, hreaches⟩ := reaches_of_mem_traceProgram hvisit
  obtain rfl := (List.cons.inj hpath).2
  have hallowance : options.maxDepth + 1 = options.maxDepth - depth + 1 + depth := by omega
  have hfewest : ∀ other steps, Reaches ⟨.program, false, program⟩ place steps other →
      depth ≤ steps := by
    intro other steps hother
    exact hreaches.le_of_unresolved rfl hother
  obtain ⟨before, after, hsurrounds⟩ :=
    hreaches.exists_surrounds hfewest (options.maxDepth - depth + 1)
  rw [← hallowance] at hsurrounds
  obtain ⟨call, hcall, hbelow⟩ := Traced.mem_visits_within hvisit
  have hplace : call.path = place := (List.cons.inj (congrArg Visit.path hbelow)).2.symm
  obtain rfl := hsurrounds.before_eq_nil hcall hplace
  exact ⟨after, hsurrounds⟩

/-! ## Paths through a reference -/

/-- Puts a segment into the error path right after a place, if the path leads to the place or
through it. -/
def Outcome.insertAfter (place : List String) (segment : String) (outcome : Outcome) : Outcome :=
  { outcome with
    errorPath :=
      if place <+: outcome.errorPath then
        place ++ segment :: outcome.errorPath.drop place.length
      else outcome.errorPath }

private theorem Failures.outcome_insertAfter {failures after : Failures} {place : List String}
    (hafter : ∀ failure ∈ after, ¬ place <+: failure.path) (segment : String) :
    ((failures.within segment).below place ++ after).outcome [Outcome.rootSegment] =
      ((failures.below place ++ after).outcome [Outcome.rootSegment]).insertAfter
        (Outcome.rootSegment :: place) segment := by
  cases failures with
  | cons failure failures =>
      simp [Failures.within, Failures.below, Outcome.insertAfter, Outcome.invalid]
  | nil =>
      cases after with
      | nil =>
          simp [Failures.within, Failures.below, Outcome.insertAfter, Outcome.valid]
      | cons failure after =>
          have hnot := hafter failure List.mem_cons_self
          simp [Failures.within, Failures.below, Outcome.insertAfter, Outcome.invalid, hnot]

/-! ## Replacing a node by a reference -/

section

variable {options : Options} {program : Json} {place : List String} {type : NodeType}
  {node flag index : Json} {left : Nat} {after : Failures}
  (hsurrounds : Surrounds (options.maxDepth + 1) ⟨.program, false, program⟩ place (left + 1)
    ⟨type, false, node⟩ [] after)

include hsurrounds

theorem collectProgram_of_surrounds :
    collectProgram options program = (collect (left + 1) type false node).below place ++ after :=
  hsurrounds.collect_root

theorem collectProgram_replaceAt_of_surrounds (new : Json) :
    collectProgram options (program.replaceAt place new) =
      (collect (left + 1) type false new).below place ++ after :=
  hsurrounds.collect_modifyAt fun _ => new

variable (hvariable : type.isVariable = true)

include hvariable

theorem validateSyntax_inlined (hnode : isReference node = false) (hflag : flag ≠ .string "true") :
    validateSyntax options (program.replaceAt place (referenceNode flag node)) =
      (validateSyntax options program).insertAfter (Outcome.rootSegment :: place)
        referenceKey := by
  have hafter : ∀ failure ∈ after, ¬ place <+: failure.path := by
    intro failure hfailure
    exact (hsurrounds.later failure hfailure).not_extends
  rw [validateSyntax_eq_outcome, validateSyntax_eq_outcome,
    collectProgram_replaceAt_of_surrounds hsurrounds, collectProgram_of_surrounds hsurrounds,
    collect_referenceNode hvariable hflag, collect_direct left hvariable hnode]
  exact Failures.outcome_insertAfter hafter referenceKey

theorem validateSyntax_inlined_twice (hnode : isReference node = true)
    (hflag : flag ≠ .string "true") :
    ∃ code, validateSyntax options (program.replaceAt place (referenceNode flag node)) =
        .invalid code (Outcome.rootSegment :: place ++ [referenceKey]) ∧
      (0 < left ∧ (code = .missingKey ∨ code = .extraKey) ∨ left = 0 ∧ code = .tooDeep) := by
  rw [validateSyntax_eq_outcome, collectProgram_replaceAt_of_surrounds hsurrounds,
    collect_referenceNode hvariable hflag]
  cases left with
  | zero => exact ⟨.tooDeep, rfl, .inr ⟨rfl, rfl⟩⟩
  | succ left =>
      obtain ⟨code, hcollect, hcode⟩ := collect_resolved_of_isReference hvariable hnode left
      rw [hcollect]
      exact ⟨code, rfl, .inl ⟨Nat.succ_pos left, hcode⟩⟩

private theorem isValid_bound (hvalid : (validateSyntax options program).isValid = true)
    (hindex : (validateNode NodeType.integerLiteral.name false index).isValid = true) :
    (validateSyntax options
      (program.replaceAt place (referenceNode (.string "true") index))).isValid = true := by
  rw [validateSyntax_eq_outcome, Failures.isValid_outcome_iff] at hvalid ⊢
  rw [collectProgram_of_surrounds hsurrounds] at hvalid
  obtain ⟨hinner, rfl⟩ := List.append_eq_nil_iff.mp hvalid
  have hnone : collect (left + 1) type false node = [] := List.map_eq_nil_iff.mp hinner
  rw [collectProgram_replaceAt_of_surrounds hsurrounds, collect_referenceNode_true hvariable,
    List.append_nil]
  cases left with
  | zero => exact absurd hnone (collect_one_ne_nil hvariable node)
  | succ left =>
      rw [collect_index_eq_nil hindex left]
      rfl

end

/-- At an unresolved variable position, a node given inside a reference is judged as the node
itself, below the key of the reference.  A reference inside a reference fails at that key.  In a
valid program any such node may be replaced by a reference to an index. -/
theorem reference_stands_for_node {options : Options} {program : Json} {place : List String}
    {type : NodeType} {node : Json} {depth : Nat}
    (hvisit : ⟨Outcome.rootSegment :: place, ⟨type, false, node⟩, depth⟩ ∈
      (traceProgram options program).visits)
    (hvariable : type.isVariable = true) (hdepth : depth ≤ options.maxDepth) :
    (isReference node = false → ∀ flag, flag ≠ .string "true" →
      validateSyntax options (program.replaceAt place (referenceNode flag node)) =
        (validateSyntax options program).insertAfter (Outcome.rootSegment :: place) referenceKey ∧
      ((validateSyntax options (program.replaceAt place (referenceNode flag node))).isValid = true ↔
        (validateSyntax options program).isValid = true)) ∧
    (isReference node = true → ∀ flag, flag ≠ .string "true" →
      ∃ code, validateSyntax options (program.replaceAt place (referenceNode flag node)) =
          .invalid code (Outcome.rootSegment :: place ++ [referenceKey]) ∧
        (depth < options.maxDepth ∧ (code = .missingKey ∨ code = .extraKey) ∨
          depth = options.maxDepth ∧ code = .tooDeep)) ∧
    ((validateSyntax options program).isValid = true →
      ∀ index, (validateNode NodeType.integerLiteral.name false index).isValid = true →
        (validateSyntax options
          (program.replaceAt place (referenceNode (.string "true") index))).isValid = true) := by
  obtain ⟨after, hsurrounds⟩ := exists_surrounds_of_visit hvisit hdepth
  refine ⟨?_, ?_, ?_⟩
  · intro hnode flag hflag
    have houtcome := validateSyntax_inlined hsurrounds hvariable hnode hflag
    refine ⟨houtcome, ?_⟩
    rw [houtcome]
    rfl
  · intro hnode flag hflag
    obtain ⟨code, houtcome, hcode⟩ :=
      validateSyntax_inlined_twice hsurrounds hvariable hnode hflag
    refine ⟨code, houtcome, ?_⟩
    rcases hcode with ⟨hleft, hkeys⟩ | ⟨hleft, hdeep⟩
    · exact .inl ⟨by omega, hkeys⟩
    · exact .inr ⟨by omega, hdeep⟩
  · intro hvalid index hindex
    exact isValid_bound hsurrounds hvariable hvalid hindex

def emptyFunction : Json :=
  .object [("functions", .array [.object [("id", .null), ("function", .object [])]])]

theorem emptyFunction_inlined :
    ⟨["program", "functions", "0", "function"], ⟨.function, false, .object []⟩, 2⟩ ∈
      (traceProgram ⟨3, false⟩ emptyFunction).visits ∧
    NodeType.function.isVariable = true ∧ 2 ≤ Options.maxDepth ⟨3, false⟩ ∧
    validateSyntax ⟨3, false⟩ emptyFunction =
      .invalid .missingKey ["program", "functions", "0", "function"] ∧
    validateSyntax ⟨3, false⟩ (emptyFunction.replaceAt ["functions", "0", "function"]
        (referenceNode (.bool true) (.object []))) =
      .invalid .missingKey ["program", "functions", "0", "function", "reference"] := by
  have hvisit : ⟨["program", "functions", "0", "function"], ⟨.function, false, .object []⟩, 2⟩ ∈
      (traceProgram ⟨3, false⟩ emptyFunction).visits :=
    List.mem_iff_getElem?.mpr ⟨3, rfl⟩
  have hvariable : NodeType.function.isVariable = true := by rfl
  have hdepth : 2 ≤ Options.maxDepth ⟨3, false⟩ := by decide
  have houtcome : validateSyntax ⟨3, false⟩ emptyFunction =
      .invalid .missingKey ["program", "functions", "0", "function"] := by decide
  have hinlined := (reference_stands_for_node hvisit hvariable hdepth).1 rfl (.bool true) nofun
  refine ⟨hvisit, hvariable, hdepth, houtcome, ?_⟩
  rw [hinlined.1, houtcome]
  decide

end TreeSyntax
