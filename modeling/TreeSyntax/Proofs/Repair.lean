import TreeSyntax.Proofs.Locality
import TreeSyntax.Proofs.Transparency

/-!
# Repairs make progress

The node at the path of the first failure, or the list there, may be replaced by one that the check
made at that place accepts.  Then this failure is gone, nothing is found before it, and the others
are found as they were; so the next failure of the program is the second of those that are collected
from it.
-/

namespace TreeSyntax

/-! ## A repair -/

namespace Encloses

variable {allowance : Nat} {root : Position} {path : List String}
  {found : (Json → Json) → Failures} {before after : Failures} {failure : Failure ErrorCode}
  {rest : Failures}

/-- What is found before the place does not begin with a failure at it. -/
theorem before_eq_nil (h : Encloses allowance root path found before after)
    (hpath : failure.path = path) {others : Failures} (hhead : before ++ others = failure :: rest) :
    before = [] := by
  cases before with
  | nil => rfl
  | cons first before =>
      obtain ⟨rfl, -⟩ := List.cons.inj hhead
      exact absurd hpath (h.earlier first List.mem_cons_self).ne

/-- A failure at the place is all that is found there: nothing below its path comes after it. -/
private theorem found_eq_singleton (h : Encloses allowance root path found before after)
    (hpath : failure.path = path) (hhead : found id ++ after = failure :: rest)
    (horder : Failures.InOrder root (failure :: rest)) : found id = [failure] := by
  cases hfound : found id with
  | nil =>
      rw [hfound, List.nil_append] at hhead
      exact absurd hpath.symm (h.later failure (hhead ▸ List.mem_cons_self)).ne
  | cons first more =>
      rw [hfound, List.cons_append] at hhead
      obtain ⟨rfl, rfl⟩ := List.cons.inj hhead
      have hmore : more = [] := by
        apply List.eq_nil_iff_forall_not_mem.mpr
        intro other hother
        have hprecedes := (List.pairwise_cons.mp horder).1 other (List.mem_append_left _ hother)
        have hbelow := h.inside id other (hfound ▸ List.mem_cons_of_mem first hother)
        rw [hpath] at hprecedes
        exact hprecedes.not_extends hbelow
      rw [hmore]

/-- When what is found at the path of the first failure becomes nothing, the others remain. -/
private theorem collect_repaired (h : Encloses allowance root path found before after)
    (hfailures : collect allowance root.type root.resolved root.node = failure :: rest)
    (hpath : failure.path = path) {change : Json → Json} (hrepaired : found change = []) :
    collect allowance root.type root.resolved (root.node.modifyAt path change) = rest := by
  have hall : before ++ (found id ++ after) = failure :: rest := by
    rw [← h.collect_modifyAt, Json.modifyAt_id, hfailures]
  have horder := inOrder_collect allowance root.type root.resolved root.node
  rw [hfailures] at horder
  have hbefore := h.before_eq_nil hpath hall
  rw [hbefore, List.nil_append] at hall
  have hfound := h.found_eq_singleton hpath hall horder
  rw [hfound] at hall
  calc collect allowance root.type root.resolved (root.node.modifyAt path change)
      = before ++ (found change ++ after) := h.collect_modifyAt change
    _ = after := by rw [hbefore, hrepaired, List.nil_append, List.nil_append]
    _ = rest := (List.cons.inj hall).2

end Encloses

/-- The check that a run makes at a path where it then fails, as what is asked of the value there:
the first call at a node, or the calls for the elements of a list. -/
inductive Asks (options : Options) (program : Json) : ErrorCode → List String → (Json → Prop) → Prop
  | node {code : ErrorCode} {path : List String} {visit : Visit} (hcode : code ≠ .invalidList)
      (hfirst : firstCall? options program path = some visit) :
      Asks options program code path fun new =>
        checkAt options.maxDepth visit.depth visit.position.type visit.position.resolved new =
          .ok ()
  | list {visit : Visit} {above : List String} {type : NodeType} {resolved : Bool}
      {members : Members} {fields : List FieldRule} {field : FieldRule}
      (hvisit : visit ∈ (traceProgram options program).visits)
      (hpath : visit.path = Outcome.rootSegment :: above) (hdepth : visit.depth ≤ options.maxDepth)
      (hposition : visit.position = ⟨type, resolved, .object members⟩)
      (hrule : type.rule = .record fields) (hclosed : type.allowsReference resolved = false)
      (hkeys : HasExactKeys members (fields.map FieldRule.key)) (hfield : field ∈ fields)
      (hlist : field.isList = true) :
      Asks options program .invalidList (above ++ [field.key]) fun new =>
        ∃ items, new = .array items ∧ ∀ item ∈ items,
          checkAt options.maxDepth (visit.depth + 1) field.type false item = .ok ()

private theorem collect_eq_nil_of_checkAt {limit depth : Nat} {type : NodeType} {resolved : Bool}
    {node : Json} (h : checkAt limit depth type resolved node = .ok ()) :
    collect (limit + 1 - depth) type resolved node = [] := by
  rw [checkAt_eq_check] at h
  exact (stopsAtFirst_check _ _ _ _).eq_ok_iff.mp h

private theorem exists_encloses_of_list {options : Options} {program : Json} {visit : Visit}
    {above : List String} {type : NodeType} {resolved : Bool}
    {members : Members} {fields : List FieldRule} {field : FieldRule}
    (hvisit : visit ∈ (traceProgram options program).visits)
    (hpath : visit.path = Outcome.rootSegment :: above) (hdepth : visit.depth ≤ options.maxDepth)
    (hposition : visit.position = ⟨type, resolved, .object members⟩)
    (hrule : type.rule = .record fields) (hclosed : type.allowsReference resolved = false)
    (hkeys : HasExactKeys members (fields.map FieldRule.key)) (hfield : field ∈ fields) :
    ∃ before after, Encloses (options.maxDepth + 1) ⟨.program, false, program⟩
      (above ++ [field.key])
      (fun change => (collectField
        (fun part => collect (options.maxDepth - visit.depth) part false)
        (Entries.modify members field.key change) field).below above) before after := by
  obtain ⟨path, hpath', hreaches⟩ := reaches_of_mem_traceProgram hvisit
  obtain rfl := (List.cons.inj (hpath.symm.trans hpath')).2
  rw [hposition] at hreaches
  obtain ⟨before, after, hfound⟩ :=
    encloses_field (options.maxDepth - visit.depth) hrule hclosed hkeys hfield
  obtain ⟨before', after', hencloses⟩ := hreaches.exists_encloses (List.cons_ne_nil _ _) hfound
  have hallowance :
      options.maxDepth - visit.depth + 1 + visit.depth = options.maxDepth + 1 := by omega
  rw [hallowance] at hencloses
  exact ⟨before', after', hencloses⟩

theorem depth_le_of_checkAt {limit depth : Nat} {type : NodeType} {resolved : Bool} {node : Json}
    (h : checkAt limit depth type resolved node = .ok ()) : depth ≤ limit := by
  by_contra hdeep
  rw [checkAt, if_pos (Nat.not_le.mp hdeep)] at h
  cases h

/-- After a repair of what is reported, the other failures are collected as they were. -/
theorem collectProgram_repaired {options : Options} {program new : Json} {code : ErrorCode}
    {path : List String} {accepts : Json → Prop} {rest : Failures}
    (hasks : Asks options program code path accepts) (hnew : accepts new)
    (hfailures : collectProgram options program = ⟨code, path⟩ :: rest) :
    collectProgram options (program.replaceAt path new) = rest := by
  cases hasks with
  | node hcode hfirst =>
      obtain ⟨before, after, hencloses⟩ :=
        exists_encloses_of_firstCall? hfirst (depth_le_of_checkAt hnew)
      apply hencloses.collect_repaired hfailures rfl
      rw [collect_eq_nil_of_checkAt hnew]
      rfl
  | @list visit _ _ _ members fields field hvisit hpath hdepth hposition hrule hclosed hkeys hfield
      hlist =>
      obtain ⟨before, after, hencloses⟩ :=
        exists_encloses_of_list hvisit hpath hdepth hposition hrule hclosed hkeys hfield
      apply hencloses.collect_repaired hfailures rfl
      obtain ⟨items, rfl, hitems⟩ := hnew
      have hmember : field.key ∈ Entries.names members :=
        (hkeys field.key).mpr (List.mem_map_of_mem hfield)
      have hchanged := Entries.find?_modify_self (find?_eq_valueAt hmember) fun _ => .array items
      have hnone : collectField (fun part => collect (options.maxDepth - visit.depth) part false)
          (Entries.modify members field.key fun _ => .array items) field = [] := by
        rw [collectField_eq_nil_iff hchanged]
        refine .inr ⟨hlist, items, rfl, ?_⟩
        intro item hitem
        have hcollect := collect_eq_nil_of_checkAt (hitems item hitem)
        rwa [Nat.add_sub_add_right] at hcollect
      rw [hnone]
      rfl

/-! ## The check at the path of a failure -/

theorem exists_collectProgram_of_invalid {options : Options} {program : Json} {code : ErrorCode}
    {path : List String}
    (h : validateSyntax options program = .invalid code (Outcome.rootSegment :: path)) :
    ∃ rest, collectProgram options program = ⟨code, path⟩ :: rest := by
  rw [validateSyntax_eq_outcome] at h
  cases hfailures : collectProgram options program with
  | nil => simp [hfailures, Outcome.valid, Outcome.invalid] at h
  | cons failure rest =>
      obtain ⟨reason, inner⟩ := failure
      simp only [hfailures, Failures.outcome, Outcome.invalid, Outcome.mk.injEq,
        Option.some.injEq, List.singleton_append, List.cons.injEq, true_and] at h
      obtain ⟨rfl, rfl⟩ := h
      exact ⟨rest, rfl⟩

private theorem exists_firstCall? {options : Options} {program : Json} {call : Visit}
    (h : call ∈ (trace (options.maxDepth + 1) 0 .program false program).visits) :
    ∃ visit, firstCall? options program call.path = some visit := by
  apply Option.isSome_iff_exists.mp
  rw [firstCall?, List.find?_isSome]
  exact ⟨call.below [Outcome.rootSegment], List.mem_map_of_mem h, beq_self_eq_true _⟩

/-- Where a run fails, a check was made. -/
private theorem exists_asks_of_invalid {options : Options} {program : Json} {code : ErrorCode}
    {path : List String}
    (hfailed : validateSyntax options program = .invalid code (Outcome.rootSegment :: path)) :
    ∃ accepts, Asks options program code path accepts := by
  obtain ⟨rest, hfailures⟩ := exists_collectProgram_of_invalid hfailed
  have hstops := stopsAtFirst_check (options.maxDepth + 1) .program false program
  rw [← collectProgram, hfailures, ← verdict_trace _ 0] at hstops
  obtain ⟨found, hfound, hmap⟩ := hstops.exists_of_cons
  obtain ⟨call, hcall, own, hown, rfl, hdepth⟩ :=
    @exists_call_of_failure _ _ ⟨.program, false, program⟩ _ hfound
  obtain ⟨hreason, hpath⟩ := Failure.mk.inj hmap
  generalize hposition : call.position = position at hown
  cases hown with
  | node hother =>
      obtain ⟨visit, hvisit⟩ := exists_firstCall? hcall
      rw [← hpath, ← hreason]
      simp only [Failure.below, Failure.here, List.append_nil]
      exact ⟨_, .node hother hvisit⟩
  | list hrule hclosed hkeys hfield hlist =>
      rw [← hpath, ← hreason]
      have hlimit : call.depth < 0 + (options.maxDepth + 1) :=
        hdepth (by simp [Violation.code])
      have hlast : call.depth ≤ options.maxDepth := by omega
      have hvisit : call.below [Outcome.rootSegment] ∈ (traceProgram options program).visits :=
        List.mem_map_of_mem hcall
      exact ⟨_, .list hvisit rfl hlast hposition hrule hclosed hkeys hfield hlist⟩

/-! ## Rounds -/

inductive Repairs (options : Options) : Nat → Json → Json → Prop
  | done (program : Json) : Repairs options 0 program program
  | round {program new last : Json} {code : ErrorCode} {path : List String}
      {accepts : Json → Prop} {rounds : Nat}
      (hfailed : validateSyntax options program = .invalid code (Outcome.rootSegment :: path))
      (hcode : code ≠ .tooDeep) (hasks : Asks options program code path accepts)
      (hnew : accepts new) (hrest : Repairs options rounds (program.replaceAt path new) last) :
      Repairs options (rounds + 1) program last

def Failures.repairable (failures : Failures) : Failures :=
  failures.takeWhile fun failure => failure.reason != .tooDeep

private theorem Failures.length_repairable_le (failures : Failures) :
    failures.repairable.length ≤ failures.length :=
  (List.takeWhile_sublist _).length_le

/-- When all repairable failures are gone, either nothing is left or something is too deep. -/
private theorem Failures.outcome_drop_repairable (failures : Failures) (above : List String) :
    (Failures.outcome above (failures.drop failures.repairable.length)).isValid = true ∨
      (Failures.outcome above (failures.drop failures.repairable.length)).errorCode =
        some .tooDeep := by
  induction failures with
  | nil => exact .inl rfl
  | cons failure failures ih =>
      by_cases hdeep : failure.reason = .tooDeep
      · have hnone : repairable (failure :: failures) = [] := by simp [repairable, hdeep]
        rw [hnone]
        exact .inr (congrArg some hdeep)
      · have hcons : repairable (failure :: failures) = failure :: repairable failures := by
          simp [repairable, hdeep]
        rw [hcons]
        exact ih

theorem Repairs.collectProgram_eq {options : Options} {rounds : Nat} {program last : Json}
    (h : Repairs options rounds program last) :
    collectProgram options last = (collectProgram options program).drop rounds ∧
      rounds ≤ (collectProgram options program).repairable.length := by
  induction h with
  | done program => exact ⟨rfl, Nat.zero_le _⟩
  | @round program new last code path accepts rounds hfailed hcode hasks hnew hrest ih =>
      obtain ⟨rest, hfailures⟩ := exists_collectProgram_of_invalid hfailed
      rw [collectProgram_repaired hasks hnew hfailures] at ih
      have hrepairable : Failures.repairable (⟨code, path⟩ :: rest) =
          ⟨code, path⟩ :: Failures.repairable rest := by
        simp [Failures.repairable, hcode]
      rw [hfailures, hrepairable]
      exact ⟨ih.1, Nat.succ_le_succ ih.2⟩

/-- Where a program is reported to fail, a check was made.  Once a value that this check accepts
stands in the place, the second failure of the program is the one that is reported, and it lies in
a later part.  After no more rounds of this than there are failures the program is valid or too
deep. -/
theorem repair_makes_progress {options : Options} {program : Json} {code : ErrorCode}
    {path : List String}
    (hfailed : validateSyntax options program = .invalid code (Outcome.rootSegment :: path)) :
    (∃ accepts, Asks options program code path accepts) ∧
    (∃ rest : Failures, collectProgram options program = ⟨code, path⟩ :: rest ∧
      (∀ failure ∈ rest, Precedes ⟨.program, false, program⟩ path failure.path) ∧
      ∀ accepts new, Asks options program code path accepts → accepts new →
        collectProgram options (program.replaceAt path new) = rest ∧
        validateSyntax options (program.replaceAt path new) =
          rest.outcome [Outcome.rootSegment]) ∧
    ∀ rounds last, Repairs options rounds program last →
      rounds ≤ (collectProgram options program).length ∧
      collectProgram options last = (collectProgram options program).drop rounds ∧
      (rounds < (collectProgram options program).repairable.length ∨
        (validateSyntax options last).isValid = true ∨
        (validateSyntax options last).errorCode = some .tooDeep) := by
  obtain ⟨rest, hfailures⟩ := exists_collectProgram_of_invalid hfailed
  refine ⟨exists_asks_of_invalid hfailed, ⟨rest, hfailures, ?_, ?_⟩, ?_⟩
  · have horder : Failures.InOrder ⟨.program, false, program⟩ (collectProgram options program) :=
      inOrder_collect _ _ _ _
    rw [hfailures] at horder
    exact (List.pairwise_cons.mp horder).1
  · intro accepts new hasks hnew
    have hrepaired := collectProgram_repaired hasks hnew hfailures
    exact ⟨hrepaired, by rw [validateSyntax_eq_outcome, hrepaired]⟩
  · intro rounds last hrepairs
    obtain ⟨hlast, hrounds⟩ := hrepairs.collectProgram_eq
    refine ⟨Nat.le_trans hrounds (Failures.length_repairable_le _), hlast, ?_⟩
    rcases Nat.lt_or_eq_of_le hrounds with hlt | rfl
    · exact .inl hlt
    · rw [validateSyntax_eq_outcome, hlast]
      exact .inr (Failures.outcome_drop_repairable _ _)

def twoFaults : Json :=
  .object [("functions", .array [.object [("id", .null), ("function", .object [])], .null])]

theorem twoFaults_repair :
    let place := ["functions", "0", "function"]
    validateSyntax ⟨3, false⟩ twoFaults = .invalid .missingKey (Outcome.rootSegment :: place) ∧
    Asks ⟨3, false⟩ twoFaults .missingKey place
      (fun new => checkAt 3 2 .function false new = .ok ()) ∧
    checkAt 3 2 .function false (referenceNode (.string "true") (.string "0")) = .ok () ∧
    validateSyntax ⟨3, false⟩
        (twoFaults.replaceAt place (referenceNode (.string "true") (.string "0"))) =
      .invalid .missingKey ["program", "functions", "1"] := by
  intro place
  have hfailed : validateSyntax ⟨3, false⟩ twoFaults =
      .invalid .missingKey (Outcome.rootSegment :: place) := by decide
  have hfirst : firstCall? ⟨3, false⟩ twoFaults place =
      some ⟨Outcome.rootSegment :: place, ⟨.function, false, .object []⟩, 2⟩ := by rfl
  have hcode : ErrorCode.missingKey ≠ .invalidList := nofun
  have hasks : Asks ⟨3, false⟩ twoFaults .missingKey place
      (fun new => checkAt 3 2 .function false new = .ok ()) := .node hcode hfirst
  have hnew : checkAt 3 2 .function false
      (referenceNode (.string "true") (.string "0")) = .ok () := by
    rw [checkAt_eq_check]
    rfl
  have hfailures : collectProgram ⟨3, false⟩ twoFaults =
      [⟨.missingKey, place⟩, ⟨.missingKey, ["functions", "1"]⟩] := by decide
  obtain ⟨-, ⟨rest, hrest, -, hrepaired⟩, -⟩ := repair_makes_progress hfailed
  rw [hfailures] at hrest
  obtain rfl := (List.cons.inj hrest).2
  exact ⟨hfailed, hasks, hnew, (hrepaired _ _ hasks hnew).2⟩

end TreeSyntax
