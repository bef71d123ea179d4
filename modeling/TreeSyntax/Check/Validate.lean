import TreeSyntax.Check.Basic
import TreeSyntax.Outcome.Wire

/-!
# Validation

A program is validated on its own or together with the libraries that it comes with.  Libraries
count as checked already unless the options ask for a check; then the first library that fails
decides the outcome.
-/

namespace TreeSyntax

/-! ## Options -/

structure Options where
  /-- The number of grammar steps below the root that a node may lie deep. -/
  maxDepth : Nat
  checkLibraries : Bool
  deriving DecidableEq, Repr

namespace Options

def default : Options := ⟨256, false⟩

instance : Inhabited Options := ⟨default⟩

open Json in
def record : RecordShape (Option Nat × Option Bool) Options where
  name := "struct ValidatorOptions"
  fields := [
    ⟨"maxDepth", _, Prod.fst, .count, fun value draft => (some value, draft.2)⟩,
    ⟨"checkLibraries", _, Prod.snd, .bool, fun value draft => (draft.1, some value)⟩]
  start := (none, none)
  allowsUnknown := true
  finish draft := .ok ⟨draft.1.getD default.maxDepth, draft.2.getD default.checkLibraries⟩
  finishEarly draft := .ok ⟨draft.1.getD default.maxDepth, draft.2.getD default.checkLibraries⟩

def shape : Json.Shape Options := record.shape

end Options

/-! ## Single trees -/

def checkNode (options : Options) (typeName : String) (resolved : Bool) (node : Json) :
    Verdict Violation :=
  match NodeType.ofName? typeName with
  | none => Checked.fail (.unknownType typeName)
  | some type => check (options.maxDepth + 1) type resolved node

def validateNode (typeName : String) (resolved : Bool) (node : Json) : Outcome :=
  .ofVerdict ((checkNode .default typeName resolved node).mapReason Violation.code)

def checkProgram (options : Options) (program : Json) : Verdict Violation :=
  (check (options.maxDepth + 1) .program false program).within Outcome.rootSegment

def validateSyntax (options : Options) (program : Json) : Outcome :=
  .ofVerdict ((checkProgram options program).mapReason Violation.code)

/-! ## Programs with libraries -/

abbrev Libraries : Type := Entries Json

/-- How far a validation came. -/
inductive Review where
  | unstructured
  | libraryFailed (name : String) (failure : Failure Violation)
  | checked (verdict : Verdict Violation)

def failingLibrary? (options : Options) : Libraries → Option (String × Failure Violation)
  | [] => none
  | (name, library) :: libraries =>
      match checkProgram options library with
      | .error failure => some (name, failure)
      | .ok () => failingLibrary? options libraries

def review (options : Options) (libraries : Option Libraries) (input : Json) : Review :=
  if input.isStructured then
    match if options.checkLibraries then failingLibrary? options (libraries.getD []) else none with
    | some (name, failure) => .libraryFailed name failure
    | none => .checked (checkProgram options input)
  else .unstructured

def librariesSegment : String := "libraries"

def Review.outcome : Review → Outcome
  | .unstructured => .invalid .invalidInput []
  | .libraryFailed name failure =>
      (Outcome.ofFailure (failure.map Violation.code)).nested [librariesSegment, name]
  | .checked verdict => .ofVerdict (verdict.mapReason Violation.code)

/-- Validates a structured input; anything else is no input at all. -/
def validateWith (options : Options) (libraries : Option Libraries) (input : Json) : Outcome :=
  (review options libraries input).outcome

def validate (libraries : Option Libraries) (input : Json) : Outcome :=
  validateWith .default libraries input

/-! ## Events -/

def Review.events (options : Options) (libraries : Option Libraries) : Review → List Event
  | .unstructured => [⟨.debug, "input is not a structured value", []⟩]
  | .libraryFailed name failure =>
      [failure.reason.event options.maxDepth,
        ⟨.debug, "library failed validation",
          [("library", .text name),
            ("result", .text (Outcome.ofFailure (failure.map Violation.code)).text)]⟩]
  | .checked verdict =>
      verdict.events options.maxDepth ++
        [⟨.debug, "validated program",
          [("libraries", .number (libraries.getD []).length),
            ("result", .text (Outcome.ofVerdict (verdict.mapReason Violation.code)).text)]⟩]

def validationEvents (options : Options) (libraries : Option Libraries) (input : Json) :
    List Event :=
  (review options libraries input).events options libraries

end TreeSyntax
