import TreeSyntax.Proofs.Order

/-!
# Raising the depth limit

Two checks of a tree under different limits go the same way until one of them comes to a node that
is too deep for it.  Under the higher limit that node is looked at after all.  So a higher limit
takes nothing back but a report of depth, and what it reports instead lies at the same node, below
it or after it.
-/

namespace TreeSyntax

/-! ## What is found under a higher limit -/

/-- Where a node was too deep, any failures at it or below it are found instead, and all else stays
as it was. -/
inductive Deepened : Failures → Failures → Prop
  | nil : Deepened [] []
  | same (failure : Failure ErrorCode) {low high : Failures} (hrest : Deepened low high) :
      Deepened (failure :: low) (failure :: high)
  | deeper {path : List String} {found low high : Failures}
      (hfound : ∀ failure ∈ found, path <+: failure.path) (hrest : Deepened low high) :
      Deepened (⟨.tooDeep, path⟩ :: low) (found ++ high)

namespace Deepened

variable {low high low' high' : Failures}

theorem refl (failures : Failures) : Deepened failures failures := by
  induction failures with
  | nil => exact .nil
  | cons failure failures ih => exact .same failure ih

theorem append (h : Deepened low high) (h' : Deepened low' high') :
    Deepened (low ++ low') (high ++ high') := by
  induction h with
  | nil => exact h'
  | same failure hrest ih => exact .same failure ih
  | deeper hfound hrest ih =>
      rw [List.append_assoc]
      exact .deeper hfound ih

theorem within (h : Deepened low high) (segment : String) :
    Deepened (low.within segment) (high.within segment) := by
  induction h with
  | nil => exact .nil
  | same failure hrest ih => exact .same (failure.within segment) ih
  | @deeper path found low high hfound hrest ih =>
      have hinside : ∀ failure ∈ Failures.within segment found,
          segment :: path <+: failure.path := by
        intro failure hfailure
        obtain ⟨inner, hinner, rfl⟩ := List.mem_map.mp hfailure
        exact (List.prefix_append_right_inj [segment]).mpr (hfound inner hinner)
      simp only [Failures.within, List.map_append] at ih hinside ⊢
      exact .deeper hinside ih

theorem flatMap {α : Type} {items : List α} {collectLow collectHigh : α → Failures}
    (h : ∀ item ∈ items, Deepened (collectLow item) (collectHigh item)) :
    Deepened (items.flatMap collectLow) (items.flatMap collectHigh) := by
  induction items with
  | nil => exact .nil
  | cons item items ih =>
      obtain ⟨hitem, hitems⟩ := List.forall_mem_cons.mp h
      rw [List.flatMap_cons, List.flatMap_cons]
      exact hitem.append (ih hitems)

theorem keyed {collectLow collectHigh : Members → Failures} (keys : List String) (node : Json)
    (h : ∀ members, Deepened (collectLow members) (collectHigh members)) :
    Deepened (collectKeyed keys collectLow node) (collectKeyed keys collectHigh node) := by
  simp only [collectKeyed]
  cases keyFault? keys node with
  | some code => exact .refl _
  | none => exact h _

/-- Nothing is found but below the paths of what was found before. -/
private theorem exists_above (h : Deepened low high) :
    ∀ failure ∈ high, ∃ above ∈ low, above.path <+: failure.path := by
  induction h with
  | nil => exact List.forall_mem_nil _
  | same failure hrest ih =>
      intro other hother
      rcases List.mem_cons.mp hother with rfl | hrest
      · exact ⟨other, List.mem_cons_self, List.prefix_rfl⟩
      · obtain ⟨above, habove, hbegins⟩ := ih other hrest
        exact ⟨above, List.mem_cons_of_mem failure habove, hbegins⟩
  | deeper hfound hrest ih =>
      intro failure hfailure
      rcases List.mem_append.mp hfailure with hdeep | hlater
      · exact ⟨_, List.mem_cons_self, hfound failure hdeep⟩
      · obtain ⟨above, habove, hbegins⟩ := ih failure hlater
        exact ⟨above, List.mem_cons_of_mem _ habove, hbegins⟩

end Deepened

section

variable {collectLow collectHigh : NodeType → Bool → Json → Failures}

private theorem deepened_collectReference
    (ih : ∀ type resolved node,
      Deepened (collectLow type resolved node) (collectHigh type resolved node))
    (type : NodeType) (node : Json) :
    Deepened (collectReference collectLow type node) (collectReference collectHigh type node) := by
  simp only [collectReference]
  cases isReference node with
  | false => exact ih type true node
  | true =>
      rw [if_pos rfl, if_pos rfl]
      apply Deepened.keyed
      intro members
      by_cases htrue : (valueAt members referenceFlagKey).text? = some "true"
      · simp only [htrue, if_true]
        exact (ih .integerLiteral false _).within referenceKey
      · simp only [htrue, if_false]
        exact (ih type true _).within referenceKey

private theorem deepened_collectUnion
    (ih : ∀ type node, Deepened (collectLow type false node) (collectHigh type false node))
    (tags : List NodeType) (node : Json) :
    Deepened (collectUnion (fun type => collectLow type false) tags node)
      (collectUnion (fun type => collectHigh type false) tags node) := by
  apply Deepened.keyed
  intro members
  cases allowedTag? tags (valueAt members tagKey).text? with
  | none => exact .refl _
  | some type => exact (ih type _).within payloadKey

private theorem deepened_collectRecord
    (ih : ∀ type node, Deepened (collectLow type false node) (collectHigh type false node))
    (fields : List FieldRule) (node : Json) :
    Deepened (collectRecord (fun type => collectLow type false) fields node)
      (collectRecord (fun type => collectHigh type false) fields node) := by
  apply Deepened.keyed
  intro members
  apply Deepened.flatMap
  intro field hfield
  simp only [collectField]
  cases field.isList with
  | false => exact (ih field.type _).within field.key
  | true =>
      cases (valueAt members field.key).items? with
      | none => exact .refl _
      | some items =>
          apply Deepened.flatMap
          rintro ⟨item, index⟩ hitem
          exact ((ih field.type item).within (indexText index)).within field.key

end

theorem deepened_collect {allowance allowance' : Nat} (hle : allowance ≤ allowance')
    (type : NodeType) (resolved : Bool) (node : Json) :
    Deepened (collect allowance type resolved node) (collect allowance' type resolved node) := by
  induction allowance generalizing allowance' type resolved node with
  | zero =>
      rw [← List.append_nil (collect allowance' type resolved node)]
      exact .deeper (fun failure hfailure => List.nil_prefix) .nil
  | succ allowance ih =>
      obtain ⟨more, rfl⟩ : ∃ more, allowance' = more + 1 := ⟨allowance' - 1, by omega⟩
      have ih := @ih more (Nat.le_of_succ_le_succ hle)
      rw [collect_succ, collect_succ]
      rcases NodeType.rule_cases type resolved with
        ⟨pattern, hrule⟩ | hopen | ⟨tags, hrule, hclosed⟩ | ⟨fields, hrule, hclosed⟩
      · rw [NodeType.dispatch_primitive hrule, NodeType.dispatch_primitive hrule]
        exact .refl _
      · rw [NodeType.dispatch_reference hopen, NodeType.dispatch_reference hopen]
        exact deepened_collectReference ih type node
      · rw [NodeType.dispatch_union hrule hclosed, NodeType.dispatch_union hrule hclosed]
        exact deepened_collectUnion (fun type => ih type false) tags node
      · rw [NodeType.dispatch_record hrule hclosed, NodeType.dispatch_record hrule hclosed]
        exact deepened_collectRecord (fun type => ih type false) fields node

/-! ## The first failure under a higher limit -/

private theorem Deepened.first_failure {root : Position} {low high : Failures}
    (h : Deepened low high) (horder : low.InOrder root) :
    low.head? = high.head? ∨
    ∃ path, low.head? = some ⟨.tooDeep, path⟩ ∧ ∀ failure, high.head? = some failure →
      AtOrBefore root path failure.path := by
  cases h with
  | nil => exact .inl rfl
  | same failure hrest => exact .inl rfl
  | @deeper path found low high hfound hrest =>
      refine .inr ⟨path, rfl, ?_⟩
      intro failure hfirst
      cases found with
      | cons deep found =>
          obtain rfl : deep = failure := Option.some.inj hfirst
          exact .inl (hfound deep List.mem_cons_self)
      | nil =>
          have hmem : failure ∈ high := List.mem_of_head? hfirst
          obtain ⟨above, habove, hbegins⟩ := hrest.exists_above failure hmem
          have hlater : Precedes root path above.path :=
            (List.pairwise_cons.mp horder).1 above habove
          exact .inr (hlater.of_longer List.prefix_rfl hbegins)

theorem Failures.outcome_of_head? {failures : Failures} {failure : Failure ErrorCode}
    (above : List String) (h : failures.head? = some failure) :
    failures.outcome above = .invalid failure.reason (above ++ failure.path) := by
  obtain ⟨rest, rfl⟩ := List.head?_eq_some_iff.mp h
  rfl

private theorem Failures.outcome_congr {low high : Failures} (h : low.head? = high.head?)
    (above : List String) : low.outcome above = high.outcome above := by
  cases high with
  | nil =>
      rw [List.head?_eq_none_iff.mp h]
  | cons failure high => rw [outcome_of_head? above h, outcome_of_head? above rfl]

/-- Under a higher limit a program gets the same outcome, unless it was too deep.  Then it is valid
or fails at a node that is not visited earlier than the one that was too deep, in the order in which
a check makes its calls. -/
theorem raised_limit_replaces_only_tooDeep {options options' : Options}
    (hle : options.maxDepth ≤ options'.maxDepth) (program : Json) :
    (validateSyntax options program = validateSyntax options' program ∨
      ∃ path, validateSyntax options program = .invalid .tooDeep (Outcome.rootSegment :: path) ∧
        (validateSyntax options' program = .valid ∨
          ∃ code path',
            validateSyntax options' program = .invalid code (Outcome.rootSegment :: path') ∧
            AtOrBefore ⟨.program, false, program⟩ path path' ∧
            ¬ VisitedBefore ⟨.program, false, program⟩ path' path)) ∧
    ((validateSyntax options program).errorCode ≠ some .tooDeep →
      validateSyntax options' program = validateSyntax options program) ∧
    ((validateSyntax options program).isValid = true →
      (validateSyntax options' program).isValid = true) ∧
    (trace (options'.maxDepth + 1) 0 .program false program).InOrder
      ⟨.program, false, program⟩ := by
  have hdeepened : Deepened (collectProgram options program) (collectProgram options' program) :=
    deepened_collect (Nat.succ_le_succ hle) .program false program
  have horder : (collectProgram options program).InOrder ⟨.program, false, program⟩ :=
    inOrder_collect _ .program false program
  have hcalls := inOrder_trace (options'.maxDepth + 1) 0 .program false program
  simp only [validateSyntax_eq_outcome]
  rcases hdeepened.first_failure horder with hsame | ⟨path, hdeep, hlater⟩
  · have houtcome := Failures.outcome_congr hsame [Outcome.rootSegment]
    refine ⟨.inl houtcome, fun _ => houtcome.symm, ?_, hcalls⟩
    intro hvalid
    rw [← houtcome]
    exact hvalid
  · have houtcome := Failures.outcome_of_head? [Outcome.rootSegment] hdeep
    rw [houtcome]
    refine ⟨.inr ⟨path, rfl, ?_⟩, fun hother => absurd rfl hother, nofun, hcalls⟩
    cases hfirst : (collectProgram options' program).head? with
    | none =>
        rw [List.head?_eq_none_iff.mp hfirst]
        exact .inl rfl
    | some failure =>
        have hpath := hlater failure hfirst
        refine .inr ⟨failure.reason, failure.path, ?_, hpath, hpath.not_visitedBefore⟩
        exact Failures.outcome_of_head? [Outcome.rootSegment] hfirst

/-- The index of the first function lies three steps deep, and the second definition has no
function. -/
def halfDefined : Json :=
  .object [("functions", .array [
    .object [("id", .null), ("function", .object [
      ("isVariableReference", .string "true"), ("reference", .string "0")])],
    .object [("id", .null)]])]

theorem halfDefined_limits :
    Options.maxDepth ⟨2, false⟩ ≤ Options.maxDepth ⟨3, false⟩ ∧
    validateSyntax ⟨2, false⟩ halfDefined =
      .invalid .tooDeep ["program", "functions", "0", "function", "reference"] ∧
    validateSyntax ⟨3, false⟩ halfDefined =
      .invalid .missingKey ["program", "functions", "1"] ∧
    ¬ VisitedBefore ⟨.program, false, halfDefined⟩ ["functions", "1"]
      ["functions", "0", "function", "reference"] := by
  have hlow : validateSyntax ⟨2, false⟩ halfDefined =
      .invalid .tooDeep ["program", "functions", "0", "function", "reference"] := by decide
  have hhigh : validateSyntax ⟨3, false⟩ halfDefined =
      .invalid .missingKey ["program", "functions", "1"] := by decide
  have hle : Options.maxDepth ⟨2, false⟩ ≤ Options.maxDepth ⟨3, false⟩ := by decide
  refine ⟨hle, hlow, hhigh, ?_⟩
  have hraised := (raised_limit_replaces_only_tooDeep hle halfDefined).1
  rw [hlow, hhigh] at hraised
  rcases hraised with hsame | ⟨path, hpath, hvalid | ⟨code, path', hpath', -, hafter⟩⟩
  · cases hsame
  · cases hvalid
  · cases hpath
    cases hpath'
    exact hafter

end TreeSyntax
