import TreeSyntax.Load.Basic

/-!
# Fixtures

A fixture is one conformance case: an input, perhaps with libraries, and the exact outcome that
its validation must have.
-/

namespace TreeSyntax

structure Fixture where
  description : String
  input : Json
  libraries : Option Libraries
  expect : Outcome

namespace Fixture

structure Draft where
  description : Option String
  input : Option Json
  libraries : Option (Option Libraries)
  expect : Option Outcome

def Draft.empty : Draft := ⟨none, none, none, none⟩

/-- Only the input and the expected outcome have to be given. -/
def Draft.finish (draft : Draft) : Except Json.Mismatch Fixture :=
  match draft.input, draft.expect with
  | none, _ => .error (.missingField "input")
  | _, none => .error (.missingField "expect")
  | some input, some expect =>
      .ok ⟨draft.description.getD "", input, draft.libraries.getD none, expect⟩

/-- The place of the first required field that an array is too short for. -/
def Draft.firstMissing (draft : Draft) : Nat :=
  if draft.input.isNone then 1 else 3

open Json in
def record : RecordShape Draft Fixture where
  name := "struct Fixture"
  fields := [
    ⟨"description", _, Draft.description, .text "a string",
      fun value draft => { draft with description := some value }⟩,
    ⟨"input", _, Draft.input, .any (nestingLimit - 1),
      fun value draft => { draft with input := some value }⟩,
    ⟨"libraries", _, Draft.libraries, (Shape.any (nestingLimit - 2)).map.orNull,
      fun value draft => { draft with libraries := some value }⟩,
    ⟨"expect", _, Draft.expect, Outcome.shape,
      fun value draft => { draft with expect := some value }⟩]
  start := .empty
  allowsUnknown := false
  finish := Draft.finish
  finishEarly draft := .error (.wrongLength draft.firstMissing "struct Fixture with 4 elements")

def shape : Json.Shape Fixture := record.shape

def actual (fixture : Fixture) : Outcome :=
  validate fixture.libraries fixture.input

def passes (fixture : Fixture) : Bool :=
  fixture.actual = fixture.expect

end Fixture

def loadFixture (files : FileTree) (path : String) : Loaded Fixture :=
  loadShape Fixture.shape files path

end TreeSyntax
