import Mathlib.Data.List.Induction
import TreeSyntax.Outcome.Basic

/-!
# Accumulated paths

The path of a failure grows in two ways: segment by segment on a verdict, while the check leaves
the parts that it was working in, and group by group on an outcome, once the check is over.  Both
give the same outcome.  In a run of such steps the last failure counts, with what was added since,
unless a success came after it.
-/

namespace TreeSyntax

/-! ## One addition -/

namespace Outcome

theorem nested_of_isValid {outcome : Outcome} (h : outcome.isValid = true)
    (segments : List String) : outcome.nested segments = outcome :=
  if_pos h

theorem nested_of_not_isValid {outcome : Outcome} (h : ¬ outcome.isValid = true)
    (segments : List String) :
    outcome.nested segments = { outcome with errorPath := segments ++ outcome.errorPath } :=
  if_neg h

@[simp] theorem isValid_nested (segments : List String) (outcome : Outcome) :
    (outcome.nested segments).isValid = outcome.isValid := by
  rw [nested]
  split <;> rfl

@[simp] theorem nested_nil (outcome : Outcome) : outcome.nested [] = outcome := by
  by_cases h : outcome.isValid = true
  · exact nested_of_isValid h []
  · rw [nested_of_not_isValid h, List.nil_append]

theorem nested_nested (outcome : Outcome) (inner outer : List String) :
    (outcome.nested inner).nested outer = outcome.nested (outer ++ inner) := by
  by_cases h : outcome.isValid = true
  · simp only [nested_of_isValid h]
  · rw [nested_of_not_isValid h, nested_of_not_isValid h, nested_of_not_isValid (by exact h),
      List.append_assoc]

theorem ofVerdict_within (verdict : Verdict ErrorCode) (key : String) :
    ofVerdict (verdict.within key) = (ofVerdict verdict).nested [key] := by
  cases verdict <;> rfl

theorem ofVerdict_withinIndex (verdict : Verdict ErrorCode) (key : String) (index : Nat) :
    ofVerdict (verdict.withinIndex key index) =
      (ofVerdict verdict).nested [key, indexText index] := by
  rw [Checked.withinIndex, ofVerdict_within, ofVerdict_within, nested_nested]
  rfl

end Outcome

/-! ## Runs of steps -/

inductive VerdictStep where
  | ok
  | fail (code : ErrorCode)
  | within (key : String)
  | withinIndex (key : String) (index : Nat)
  deriving DecidableEq, Repr

namespace VerdictStep

def onVerdict (verdict : Verdict ErrorCode) : VerdictStep → Verdict ErrorCode
  | .ok => .ok ()
  | .fail code => Checked.fail code
  | .within key => verdict.within key
  | .withinIndex key index => verdict.withinIndex key index

def onOutcome (outcome : Outcome) : VerdictStep → Outcome
  | .ok => .valid
  | .fail code => .invalid code []
  | .within key => outcome.nested [key]
  | .withinIndex key index => outcome.nested [key, indexText index]

def segments : VerdictStep → List String
  | .ok | .fail _ => []
  | .within key => [key]
  | .withinIndex key index => [key, indexText index]

theorem ofVerdict_onVerdict (verdict : Verdict ErrorCode) (step : VerdictStep) :
    Outcome.ofVerdict (step.onVerdict verdict) = step.onOutcome (.ofVerdict verdict) := by
  cases step with
  | ok => rfl
  | fail code => rfl
  | within key => exact Outcome.ofVerdict_within verdict key
  | withinIndex key index => exact Outcome.ofVerdict_withinIndex verdict key index

end VerdictStep

def runVerdict (steps : List VerdictStep) : Verdict ErrorCode :=
  steps.foldl VerdictStep.onVerdict (.ok ())

def runOutcome (steps : List VerdictStep) : Outcome :=
  steps.foldl VerdictStep.onOutcome .valid

theorem runVerdict_append_singleton (steps : List VerdictStep) (step : VerdictStep) :
    runVerdict (steps ++ [step]) = step.onVerdict (runVerdict steps) := by
  rw [runVerdict, List.foldl_append, ← runVerdict, List.foldl_cons, List.foldl_nil]

theorem ofVerdict_runVerdict (steps : List VerdictStep) :
    Outcome.ofVerdict (runVerdict steps) = runOutcome steps := by
  induction steps using List.reverseRecOn with
  | nil => rfl
  | append_singleton steps step ih =>
      rw [runVerdict_append_singleton, VerdictStep.ofVerdict_onVerdict, ih, runOutcome, runOutcome,
        List.foldl_append, List.foldl_cons, List.foldl_nil]

/-! ## The last failure -/

namespace VerdictStep

def Adds (step : VerdictStep) : Prop :=
  step ≠ .ok ∧ ∀ code, step ≠ .fail code

private theorem Adds.onVerdict_error {step : VerdictStep} (h : step.Adds)
    (failure : Failure ErrorCode) : step.onVerdict (.error failure) =
      .error { failure with path := step.segments ++ failure.path } := by
  cases step with
  | ok => exact absurd rfl h.1
  | fail code => exact absurd rfl (h.2 code)
  | within key => rfl
  | withinIndex key index => rfl

/-- A failure after a step was raised by it or stood there before. -/
private theorem cases_of_onVerdict_eq_error {step : VerdictStep} {verdict : Verdict ErrorCode}
    {failure : Failure ErrorCode} (h : step.onVerdict verdict = .error failure) :
    (step = .fail failure.reason ∧ failure.path = []) ∨
    ∃ earlier, verdict = .error earlier ∧ step.Adds ∧
      failure = { earlier with path := step.segments ++ earlier.path } := by
  cases step with
  | ok => cases h
  | fail code =>
      cases h
      exact .inl ⟨rfl, rfl⟩
  | within key =>
      cases verdict with
      | ok value => cases h
      | error earlier => exact .inr ⟨earlier, rfl, by simp [Adds], by cases h; rfl⟩
  | withinIndex key index =>
      cases verdict with
      | ok value => cases h
      | error earlier => exact .inr ⟨earlier, rfl, by simp [Adds], by cases h; rfl⟩

end VerdictStep

/-- The failure of one of the steps still stands at the end: those after it only add to the path,
and the segments of the last one come first. -/
def LastFails (steps : List VerdictStep) (code : ErrorCode) (path : List String) : Prop :=
  ∃ before after, steps = before ++ .fail code :: after ∧ (∀ step ∈ after, step.Adds) ∧
    path = after.reverse.flatMap VerdictStep.segments

theorem lastFails_of_runVerdict {steps : List VerdictStep} {failure : Failure ErrorCode}
    (h : runVerdict steps = .error failure) : LastFails steps failure.reason failure.path := by
  induction steps using List.reverseRecOn generalizing failure with
  | nil => cases h
  | append_singleton steps step ih =>
      rw [runVerdict_append_singleton] at h
      -- The last step raised the failure, or it stood before and this step is one that only adds.
      rcases VerdictStep.cases_of_onVerdict_eq_error h with
        ⟨rfl, hpath⟩ | ⟨earlier, hrun, hadds, rfl⟩
      · exact ⟨steps, [], rfl, by simp, hpath⟩
      · obtain ⟨before, after, rfl, hafter, hpath⟩ := ih hrun
        refine ⟨before, after ++ [step], by simp, ?_, by simp [hpath]⟩
        simpa [or_imp, forall_and] using ⟨hafter, hadds⟩

private theorem runVerdict_of_lastFails {steps : List VerdictStep} {code : ErrorCode}
    {path : List String} (h : LastFails steps code path) :
    runVerdict steps = .error ⟨code, path⟩ := by
  obtain ⟨before, after, rfl, hafter, rfl⟩ := h
  induction after using List.reverseRecOn with
  | nil => exact runVerdict_append_singleton before (.fail code)
  | append_singleton after step ih =>
      rw [List.forall_mem_append, List.forall_mem_singleton] at hafter
      rw [← List.cons_append, ← List.append_assoc, runVerdict_append_singleton, ih hafter.1,
        hafter.2.onVerdict_error]
      simp

theorem ofVerdict_runVerdict_eq_invalid_iff {steps : List VerdictStep} {code : ErrorCode}
    {path : List String} :
    Outcome.ofVerdict (runVerdict steps) = .invalid code path ↔ LastFails steps code path := by
  constructor
  · intro h
    cases hrun : runVerdict steps with
    | ok value =>
        rw [hrun] at h
        cases h
    | error failure =>
        rw [hrun] at h
        cases h
        exact lastFails_of_runVerdict hrun
  · intro h
    rw [runVerdict_of_lastFails h]
    rfl

/-- A failure that no success follows is not forgotten. -/
private theorem not_isValid_of_ok_notMem (before : List VerdictStep) (code : ErrorCode)
    {after : List VerdictStep} (h : .ok ∉ after) :
    (Outcome.ofVerdict (runVerdict (before ++ .fail code :: after))).isValid = false := by
  induction after using List.reverseRecOn with
  | nil => rw [runVerdict_append_singleton]; rfl
  | append_singleton after step ih =>
      rw [List.mem_append, List.mem_singleton, not_or] at h
      have hbefore := ih h.1
      rw [← List.cons_append, ← List.append_assoc, runVerdict_append_singleton,
        VerdictStep.ofVerdict_onVerdict]
      cases step with
      | ok => exact absurd rfl h.2
      | fail other => rfl
      | within key => exact (Outcome.isValid_nested [key] _).trans hbefore
      | withinIndex key index =>
          exact (Outcome.isValid_nested [key, indexText index] _).trans hbefore

theorem isValid_runVerdict_iff {steps : List VerdictStep} :
    (Outcome.ofVerdict (runVerdict steps)).isValid = true ↔
      ∀ before code after, steps = before ++ .fail code :: after → .ok ∈ after := by
  constructor
  · -- Without a success behind it the failure would still stand, whatever failed since.
    rintro h before code after rfl
    by_contra hnone
    rw [not_isValid_of_ok_notMem before code hnone] at h
    cases h
  · intro h
    cases hrun : runVerdict steps with
    | ok value => rfl
    | error failure =>
        obtain ⟨before, after, hsteps, hafter, -⟩ := lastFails_of_runVerdict hrun
        exact absurd rfl (hafter .ok (h before _ after hsteps)).1

theorem Outcome.eq_valid_of_isValid {verdict : Verdict ErrorCode}
    (h : (ofVerdict verdict).isValid = true) : ofVerdict verdict = .valid := by
  cases verdict with
  | ok value => rfl
  | error failure => cases h

/-! ## Outcomes that were built -/

inductive Outcome.Built : Outcome → Prop
  | valid : Built .valid
  | invalid (code : ErrorCode) (path : List String) : Built (.invalid code path)
  | nested {outcome : Outcome} (segments : List String) (h : Built outcome) :
      Built (outcome.nested segments)

theorem Outcome.Built.eq_valid_or_invalid {outcome : Outcome} (h : outcome.Built) :
    outcome = .valid ∨ ∃ code path, outcome = .invalid code path := by
  induction h with
  | valid => exact .inl rfl
  | invalid code path => exact .inr ⟨code, path, rfl⟩
  | nested segments h ih =>
      rcases ih with rfl | ⟨code, path, rfl⟩
      · exact .inl rfl
      · exact .inr ⟨code, segments ++ path, rfl⟩

theorem Outcome.Built.isValid_iff {outcome : Outcome} (h : outcome.Built) :
    outcome.isValid = true ↔ outcome.errorCode = none := by
  rcases h.eq_valid_or_invalid with rfl | ⟨code, path, rfl⟩
  · exact iff_of_true rfl rfl
  · exact iff_of_false Bool.false_ne_true (Option.some_ne_none code)

theorem Outcome.Built.errorPath_eq_nil {outcome : Outcome} (h : outcome.Built)
    (hvalid : outcome.isValid = true) : outcome.errorPath = [] := by
  rcases h.eq_valid_or_invalid with rfl | ⟨code, path, rfl⟩
  · rfl
  · cases hvalid

/-! ## Both ways agree -/

/-- A path that grows on the verdict and one that grows on the outcome are the same, after one
addition and after any run; a run ends with its last failure, unless a success came after it. -/
theorem paths_accumulate_either_way :
    (∀ (verdict : Verdict ErrorCode) (key : String),
      Outcome.ofVerdict (verdict.within key) = (Outcome.ofVerdict verdict).nested [key]) ∧
    (∀ (verdict : Verdict ErrorCode) (key : String) (index : Nat),
      Outcome.ofVerdict (verdict.withinIndex key index) =
        (Outcome.ofVerdict verdict).nested [key, indexText index]) ∧
    (∀ outcome : Outcome, outcome.nested [] = outcome) ∧
    (∀ (outcome : Outcome) (inner outer : List String),
      (outcome.nested inner).nested outer = outcome.nested (outer ++ inner)) ∧
    (∀ (outcome : Outcome) (segments : List String),
      outcome.isValid = true → outcome.nested segments = outcome) ∧
    (∀ steps : List VerdictStep,
      Outcome.ofVerdict (runVerdict steps) = runOutcome steps ∧
      ((Outcome.ofVerdict (runVerdict steps)).isValid = true ↔
        ∀ before code after, steps = before ++ .fail code :: after → .ok ∈ after) ∧
      ((Outcome.ofVerdict (runVerdict steps)).isValid = true →
        Outcome.ofVerdict (runVerdict steps) = .valid) ∧
      ∀ code path, Outcome.ofVerdict (runVerdict steps) = .invalid code path ↔
        LastFails steps code path) ∧
    (∀ outcome : Outcome, outcome.Built →
      (outcome.isValid = true ↔ outcome.errorCode = none) ∧
      (outcome.isValid = true → outcome.errorPath = [])) ∧
    ∀ failure : Failure ErrorCode, failure.text = (Outcome.ofVerdict (.error failure)).text := by
  refine ⟨Outcome.ofVerdict_within, Outcome.ofVerdict_withinIndex, Outcome.nested_nil,
    Outcome.nested_nested, fun outcome segments h => Outcome.nested_of_isValid h segments,
    fun steps => ⟨ofVerdict_runVerdict steps, isValid_runVerdict_iff,
      Outcome.eq_valid_of_isValid, fun code path => ofVerdict_runVerdict_eq_invalid_iff⟩,
    fun outcome h => ⟨h.isValid_iff, h.errorPath_eq_nil⟩, fun failure => rfl⟩

/-- A run that starts anew, a valid outcome with a code and a path, and a success in a library. -/
theorem secondFunction_path :
    Outcome.ofVerdict (runVerdict [.fail .tooDeep, .within "name", .ok, .fail .extraKey,
      .withinIndex "functions" 2, .within "program"]) =
      .invalid .extraKey ["program", "functions", "2"] ∧
    Outcome.nested ["libraries"] ⟨true, some .missingKey, ["x"]⟩ =
      ⟨true, some .missingKey, ["x"]⟩ ∧
    ((Outcome.valid.nested ["libraries", "x"]).isValid = true ↔
      (Outcome.valid.nested ["libraries", "x"]).errorCode = none) ∧
    (Outcome.valid.nested ["libraries", "x"]).errorPath = [] := by
  obtain ⟨-, -, -, -, huntouched, hrun, hbuilt, -⟩ := paths_accumulate_either_way
  obtain ⟨-, -, -, hlast⟩ := hrun [.fail .tooDeep, .within "name", .ok, .fail .extraKey,
    .withinIndex "functions" 2, .within "program"]
  obtain ⟨hiff, hpath⟩ := hbuilt _ (.nested ["libraries", "x"] .valid)
  refine ⟨(hlast .extraKey ["program", "functions", "2"]).2 ?_, huntouched _ _ rfl, hiff, hpath rfl⟩
  exact ⟨[.fail .tooDeep, .within "name", .ok], [.withinIndex "functions" 2, .within "program"],
    rfl, by simp [VerdictStep.Adds], by decide +kernel⟩

end TreeSyntax
