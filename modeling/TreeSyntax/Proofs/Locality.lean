import TreeSyntax.Proofs.Calls
import TreeSyntax.Proofs.Coverage
import TreeSyntax.Proofs.Edit
import TreeSyntax.Proofs.Libraries

/-!
# Parts are judged alone

What a check finds at a part of a tree depends on the part, on what is expected there and on the
number of steps that are left, and on nothing around it.  So an edit of a valid program fails just
where the new node fails when it is checked alone.
-/

namespace TreeSyntax

/-! ## Counting depth upwards -/

/-- Checks a node at a depth, which may not exceed the limit. -/
def checkAt (limit depth : Nat) (expected : NodeType) (resolved : Bool) (node : Json) :
    Verdict Violation :=
  if limit < depth then Checked.fail (.tooDeep expected)
  else
    match expected.rule with
    | .primitive pattern => checkPrimitive pattern expected node
    | .union tags =>
        if expected.isVariable && !resolved then
          checkReference (checkAt limit (depth + 1)) expected node
        else checkUnion (fun type => checkAt limit (depth + 1) type false) tags node
    | .record fields =>
        if expected.isVariable && !resolved then
          checkReference (checkAt limit (depth + 1)) expected node
        else checkRecord (fun type => checkAt limit (depth + 1) type false) fields node
termination_by limit + 1 - depth

theorem checkAt_add_eq_check (depth allowance : Nat) :
    ∀ limit, limit + 1 = depth + allowance → checkAt limit depth = check allowance := by
  induction allowance generalizing depth with
  | zero =>
      intro limit hlimit
      funext expected resolved node
      rw [checkAt, if_pos (by omega), check]
  | succ allowance ih =>
      intro limit hlimit
      have hparts : checkAt limit (depth + 1) = check allowance := ih (depth + 1) limit (by omega)
      funext expected resolved node
      rw [checkAt, if_neg (by omega), hparts]
      cases hrule : expected.rule <;> simp only [check, hrule]

theorem checkAt_eq_check (limit depth : Nat) :
    checkAt limit depth = check (limit + 1 - depth) := by
  by_cases hdepth : depth ≤ limit + 1
  · exact checkAt_add_eq_check depth (limit + 1 - depth) limit (by omega)
  · have hnone : limit + 1 - depth = 0 := by omega
    funext expected resolved node
    rw [checkAt, if_pos (by omega), hnone, check]

theorem checkAt_congr {limit depth limit' depth' : Nat}
    (h : limit + depth' = limit' + depth) : checkAt limit depth = checkAt limit' depth' := by
  have hsame : limit + 1 - depth = limit' + 1 - depth' := by omega
  rw [checkAt_eq_check, checkAt_eq_check, hsame]

theorem checkProgram_eq_checkAt (options : Options) (program : Json) :
    checkProgram options program =
      (checkAt options.maxDepth 0 .program false program).within Outcome.rootSegment := by
  rw [checkAt_eq_check, checkProgram, Nat.sub_zero]

/-! ## The first call at a path -/

/-- The first call that the run on a program makes at the node to which the path leads.  There is a
second one where the node is found to stand for itself. -/
def firstCall? (options : Options) (program : Json) (path : List String) : Option Visit :=
  (traceProgram options program).visits.find? fun visit =>
    visit.path == Outcome.rootSegment :: path

private theorem exists_of_firstCall? {options : Options} {program : Json} {path : List String}
    {visit : Visit} (h : firstCall? options program path = some visit) :
    ∃ call ∈ (trace (options.maxDepth + 1) 0 .program false program).visits,
      visit = call.below [Outcome.rootSegment] ∧ call.path = path ∧
      ∀ other ∈ (trace (options.maxDepth + 1) 0 .program false program).visits,
        other.path = path → call.depth ≤ other.depth := by
  rw [firstCall?, traceProgram, Traced.within, List.find?_map] at h
  obtain ⟨call, hfind, rfl⟩ := Option.map_eq_some_iff.mp h
  obtain ⟨hcall, before, after, hvisits, hbefore⟩ := List.find?_eq_some_iff_append.mp hfind
  have hpath : call.path = path := by
    simpa using hcall
  refine ⟨call, ?_, rfl, hpath, ?_⟩
  · rw [hvisits]
    simp
  · intro other hother hsame
    have hturn := (inTurn_trace (options.maxDepth + 1) 0 .program false program).visits
    rw [hvisits] at hother hturn
    rcases List.mem_append.mp hother with hearly | hlate
    · have hdiffers := hbefore other hearly
      simp [hsame] at hdiffers
    · rcases List.mem_cons.mp hlate with rfl | hlater
      · exact Nat.le_refl _
      · have hcalls := (List.pairwise_append.mp hturn).2.1
        rcases (List.pairwise_cons.mp hcalls).1 other hlater with hprecedes | ⟨-, hdepth⟩
        · rw [hpath, hsame] at hprecedes
          exact absurd rfl hprecedes.ne
        · exact hdepth

theorem reaches_of_firstCall? {options : Options} {program : Json} {path : List String}
    {visit : Visit} (h : firstCall? options program path = some visit) :
    Reaches ⟨.program, false, program⟩ path visit.depth visit.position := by
  have hvisit := List.mem_of_find?_eq_some h
  have hpath : visit.path = Outcome.rootSegment :: path := by
    simpa using List.find?_some h
  obtain ⟨path', hpath', hreaches⟩ := reaches_of_mem_traceProgram hvisit
  obtain rfl := (List.cons.inj (hpath'.symm.trans hpath)).2
  exact hreaches

/-- Also in a run that fails, the node of the first call at a path may be changed alone. -/
theorem exists_encloses_of_firstCall? {options : Options} {program : Json} {path : List String}
    {visit : Visit} (hfirst : firstCall? options program path = some visit)
    (hdepth : visit.depth ≤ options.maxDepth) :
    ∃ before after, Encloses (options.maxDepth + 1) ⟨.program, false, program⟩ path
      (fun change => (collect (options.maxDepth + 1 - visit.depth) visit.position.type
        visit.position.resolved (change visit.position.node)).below path) before after := by
  obtain ⟨call, hcall, rfl, rfl, hleast⟩ := exists_of_firstCall? hfirst
  rcases @exists_caller_of_mem_trace _ _ ⟨.program, false, program⟩ _ hcall with
    rfl | ⟨caller, hcaller, segments, hstep, hpath, hsteps⟩
  · exact ⟨[], [], (Surrounds.refl _ _).encloses⟩
  · -- A caller at the same path would have been called first.
    have hne : segments ≠ [] := by
      rintro rfl
      have hle := hleast caller hcaller (by rw [hpath, List.append_nil])
      omega
    obtain ⟨steps, hreaches, hcount⟩ :=
      @reaches_of_mem_trace _ _ ⟨.program, false, program⟩ _ hcaller
    simp only [Visit.below] at hdepth ⊢
    obtain ⟨before, after, hsurrounds⟩ :=
      hstep.exists_surrounds hne (options.maxDepth + 1 - call.depth)
    obtain ⟨before', after', hencloses⟩ := hreaches.exists_encloses hne hsurrounds.encloses
    have hallowance : options.maxDepth + 1 - call.depth + 1 + steps = options.maxDepth + 1 := by
      omega
    simp only [Failures.below_below, hallowance, ← hpath] at hencloses
    exact ⟨before', after', hencloses⟩

/-! ## One edit -/

private theorem Failures.outcome_below (failures : Failures) (path above : List String) :
    (failures.below path).outcome above = failures.outcome (above ++ path) := by
  cases failures with
  | nil => rfl
  | cons failure failures =>
      simp [Failures.below, Failures.outcome]

private theorem StopsAtFirst.outcome_of_error {verdict : Verdict Violation} {failures : Failures}
    {found : Failure Violation} (h : StopsAtFirst verdict failures)
    (hfound : verdict = .error found) (above : List String) :
    failures.outcome above = .invalid found.reason.code (above ++ found.path) := by
  subst hfound
  cases failures with
  | nil => cases h
  | cons failure failures =>
      obtain rfl := Except.error.inj h
      rfl

/-- When a program is valid, an edit of it gives the failures of the new node, and no others. -/
theorem collectProgram_replaceAt {options : Options} {program : Json} {path : List String}
    {visit : Visit} (hvalid : (validateSyntax options program).isValid = true)
    (hfirst : firstCall? options program path = some visit) (new : Json) :
    visit.depth ≤ options.maxDepth ∧
      collectProgram options (program.replaceAt path new) =
        (collect (options.maxDepth - visit.depth + 1) visit.position.type visit.position.resolved
          new).below path := by
  have hok : (trace (options.maxDepth + 1) 0 .program false program).verdict = .ok () := by
    rw [verdict_trace]
    exact Checked.within_eq_ok_iff.mp (isValid_validateSyntax_iff.mp hvalid)
  obtain ⟨left, hallowance, -⟩ := (reaches_of_firstCall? hfirst).contains hok
  have hdepth : visit.depth ≤ options.maxDepth := by omega
  have hleft : options.maxDepth + 1 - visit.depth = options.maxDepth - visit.depth + 1 := by omega
  obtain ⟨before, after, hencloses⟩ := exists_encloses_of_firstCall? hfirst hdepth
  have hempty : collectProgram options program = [] := by
    rw [validateSyntax_eq_outcome] at hvalid
    exact Failures.isValid_outcome_iff.mp hvalid
  have hsame := hencloses.collect_modifyAt id
  rw [Json.modifyAt_id, ← collectProgram, hempty] at hsame
  obtain ⟨rfl, hrest⟩ := List.append_eq_nil_iff.mp hsame.symm
  obtain ⟨-, rfl⟩ := List.append_eq_nil_iff.mp hrest
  refine ⟨hdepth, ?_⟩
  rw [collectProgram, Json.replaceAt, hencloses.collect_modifyAt, hleft, List.nil_append,
    List.append_nil]

/-- After one edit of a valid program the validator does what a check of the new node alone does,
with as many steps left as there were at the node.  How deep a check starts does not matter, but
only how far from the limit. -/
theorem edited_node_judged_alone {options : Options} {program : Json} {path : List String}
    {visit : Visit} (hvalid : (validateSyntax options program).isValid = true)
    (hfirst : firstCall? options program path = some visit) :
    visit.depth ≤ options.maxDepth ∧
    (program.Addressable → ∀ new : Json, (program.replaceAt path new).follow? path = some new) ∧
    (∀ new : Json,
      ((validateSyntax options (program.replaceAt path new)).isValid = true ↔
        checkAt (options.maxDepth - visit.depth) 0 visit.position.type visit.position.resolved
          new = .ok ()) ∧
      ∀ failure, checkAt (options.maxDepth - visit.depth) 0 visit.position.type
          visit.position.resolved new = .error failure →
        validateSyntax options (program.replaceAt path new) =
          .invalid failure.reason.code (Outcome.rootSegment :: path ++ failure.path)) ∧
    (∀ program' : Json, checkProgram options program' =
      (checkAt options.maxDepth 0 .program false program').within Outcome.rootSegment) ∧
    ∀ limit depth limit' depth' : Nat, limit + depth' = limit' + depth →
      checkAt limit depth = checkAt limit' depth' := by
  have hdepth := (collectProgram_replaceAt hvalid hfirst program).1
  refine ⟨hdepth, ?_, ?_, checkProgram_eq_checkAt options, ?_⟩
  · intro haddressable new
    exact (reaches_of_firstCall? hfirst).follow?_modifyAt haddressable fun _ => new
  · intro new
    have hcollect := (collectProgram_replaceAt hvalid hfirst new).2
    have hstops := stopsAtFirst_check (options.maxDepth - visit.depth + 1) visit.position.type
      visit.position.resolved new
    rw [checkAt_eq_check, Nat.sub_zero, validateSyntax_eq_outcome, hcollect,
      Failures.outcome_below]
    constructor
    · rw [Failures.isValid_outcome_iff, hstops.eq_ok_iff]
    · intro failure hfailure
      exact hstops.outcome_of_error hfailure _
  · intro limit depth limit' depth' h
    exact checkAt_congr h

def singleDefinition (function : Json) : Json :=
  .object [("functions", .array [.object [("id", .null), ("function", function)]])]

theorem singleDefinition_edit :
    (validateSyntax ⟨3, false⟩
      (singleDefinition (referenceNode (.string "true") (.string "0")))).isValid = true ∧
    firstCall? ⟨3, false⟩ (singleDefinition (referenceNode (.string "true") (.string "0")))
        ["functions", "0", "function"] =
      some ⟨["program", "functions", "0", "function"],
        ⟨.function, false, referenceNode (.string "true") (.string "0")⟩, 2⟩ ∧
    checkAt 1 0 .function false (referenceNode (.string "true") (.string "x")) =
      .error ⟨.primitiveMismatch "integer-literal" (.string "x"), [referenceKey]⟩ ∧
    validateSyntax ⟨3, false⟩
        ((singleDefinition (referenceNode (.string "true") (.string "0"))).replaceAt
          ["functions", "0", "function"] (referenceNode (.string "true") (.string "x"))) =
      .invalid .invalidPrimitive ["program", "functions", "0", "function", "reference"] := by
  have hvalid : (validateSyntax ⟨3, false⟩
      (singleDefinition (referenceNode (.string "true") (.string "0")))).isValid = true := by
    decide
  have hfirst : firstCall? ⟨3, false⟩
      (singleDefinition (referenceNode (.string "true") (.string "0")))
      ["functions", "0", "function"] =
        some ⟨["program", "functions", "0", "function"],
          ⟨.function, false, referenceNode (.string "true") (.string "0")⟩, 2⟩ := by rfl
  have hfails : checkAt 1 0 .function false (referenceNode (.string "true") (.string "x")) =
      .error ⟨.primitiveMismatch "integer-literal" (.string "x"), [referenceKey]⟩ := by
    rw [checkAt_eq_check]
    rfl
  have hjudged := (edited_node_judged_alone hvalid hfirst).2.2.1
    (referenceNode (.string "true") (.string "x"))
  exact ⟨hvalid, hfirst, hfails, hjudged.2 _ hfails⟩

end TreeSyntax
