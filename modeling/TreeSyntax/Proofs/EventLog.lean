import TreeSyntax.Proofs.Trace

/-!
# Events of validations

A validation traces the libraries, up to the first that fails, and then the program.  It logs what
those runs log and one event of its own at the end, and these are the events which the validator
derives from how far it came.
-/

namespace TreeSyntax

def traceNode (options : Options) (typeName : String) (resolved : Bool) (node : Json) :
    Traced Unit :=
  match NodeType.ofName? typeName with
  | some type => trace (options.maxDepth + 1) 0 type resolved node
  | none => do
      .tell "no grammar rule" [("expected", .text typeName)]
      .fail (.unknownType typeName)

def traceLibraries (options : Options) : Libraries → List Event × Option Outcome
  | [] => ([], none)
  | (name, library) :: libraries =>
      let run := traceProgram options library
      if run.outcome.isValid then
        let rest := traceLibraries options libraries
        (run.events ++ rest.1, rest.2)
      else
        (run.events ++
          [⟨.debug, "library failed validation",
            [("library", .text name), ("result", .text run.outcome.text)]⟩],
          some (run.outcome.nested [librariesSegment, name]))

def traceValidation (options : Options) (libraries : Option Libraries) (input : Json) :
    List Event × Outcome :=
  if input.isStructured then
    match traceLibraries options (if options.checkLibraries then libraries.getD [] else []) with
    | (events, some outcome) => (events, outcome)
    | (events, none) =>
        let run := traceProgram options input
        (events ++ run.events ++
          [⟨.debug, "validated program",
            [("libraries", .number (libraries.getD []).length),
              ("result", .text run.outcome.text)]⟩],
          run.outcome)
  else ([⟨.debug, "input is not a structured value", []⟩], .invalid .invalidInput [])

/-! ## Runs over single trees -/

theorem Traced.Follows.outcome_eq {limit : Nat} {traced : Traced Unit}
    {checked : Verdict Violation} (h : traced.Follows limit checked) :
    traced.outcome = .ofVerdict (checked.mapReason Violation.code) := by
  rw [Traced.outcome, h.verdict]

theorem follows_traceNode (options : Options) (typeName : String) (resolved : Bool)
    (node : Json) :
    (traceNode options typeName resolved node).Follows options.maxDepth
      (checkNode options typeName resolved node) := by
  rw [traceNode, checkNode]
  cases NodeType.ofName? typeName with
  | none => exact ⟨rfl, rfl⟩
  | some type => exact follows_trace (Nat.zero_add _) type resolved node

theorem outcome_traceProgram (options : Options) (program : Json) :
    (traceProgram options program).outcome = validateSyntax options program := by
  rw [(follows_traceProgram options program).outcome_eq, validateSyntax]

/-! ## The traced validation is the validation -/

theorem traceLibraries_eq (options : Options) (libraries : Libraries) :
    traceLibraries options libraries =
      match failingLibrary? options libraries with
      | none => ([], none)
      | some (name, failure) =>
          ((Review.libraryFailed name failure).events options none,
            some (Review.libraryFailed name failure).outcome) := by
  induction libraries with
  | nil => rfl
  | cons entry libraries ih =>
      obtain ⟨name, library⟩ := entry
      have hrun := follows_traceProgram options library
      simp only [traceLibraries, failingLibrary?, hrun.outcome_eq, hrun.events]
      cases checkProgram options library with
      | ok value =>
          simp only [ih]
          rfl
      | error failure => rfl

theorem traceValidation_eq (options : Options) (libraries : Option Libraries) (input : Json) :
    traceValidation options libraries input =
      (validationEvents options libraries input, validateWith options libraries input) := by
  have hrun := follows_traceProgram options input
  simp only [traceValidation, validationEvents, validateWith, review, traceLibraries_eq,
    hrun.outcome_eq, hrun.events]
  cases input.isStructured with
  | false => rfl
  | true =>
      cases options.checkLibraries with
      | false => rfl
      | true =>
          simp only [if_true]
          cases failingLibrary? options (libraries.getD []) with
          | none => rfl
          | some failing => rfl

end TreeSyntax
