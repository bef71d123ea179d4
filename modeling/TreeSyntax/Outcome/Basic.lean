import TreeSyntax.Json.Trail
import TreeSyntax.Verdict

/-!
# Outcomes

The outcome of one validation: whether the input is valid, and if not, an error code and the path
to the node at fault.
-/

namespace TreeSyntax

structure Outcome where
  isValid : Bool
  errorCode : Option ErrorCode
  errorPath : List String
  deriving DecidableEq, Repr

namespace Outcome

def valid : Outcome := ⟨true, none, []⟩

def invalid (code : ErrorCode) (path : List String) : Outcome := ⟨false, some code, path⟩

@[simp] theorem isValid_valid : valid.isValid = true := rfl

@[simp] theorem errorCode_valid : valid.errorCode = none := rfl

@[simp] theorem errorPath_valid : valid.errorPath = [] := rfl

@[simp] theorem isValid_invalid (code : ErrorCode) (path : List String) :
    (invalid code path).isValid = false := rfl

@[simp] theorem errorCode_invalid (code : ErrorCode) (path : List String) :
    (invalid code path).errorCode = some code := rfl

@[simp] theorem errorPath_invalid (code : ErrorCode) (path : List String) :
    (invalid code path).errorPath = path := rfl

def ofFailure (failure : Failure ErrorCode) : Outcome :=
  invalid failure.reason failure.path

def ofVerdict : Verdict ErrorCode → Outcome
  | .ok _ => valid
  | .error failure => ofFailure failure

@[simp] theorem ofVerdict_ok (value : Unit) : ofVerdict (.ok value) = valid := rfl

@[simp] theorem ofVerdict_error (failure : Failure ErrorCode) :
    ofVerdict (.error failure) = invalid failure.reason failure.path := rfl

/-- Puts segments in front of the path of a failure; a valid outcome stays as it is. -/
def nested (segments : List String) (outcome : Outcome) : Outcome :=
  if outcome.isValid then outcome
  else { outcome with errorPath := segments ++ outcome.errorPath }

def rootSegment : String := "program"

/-- The node that the path leads to in the validated program, if it starts there. -/
def locate? (outcome : Outcome) (root : Json) : Option Json :=
  match outcome.errorPath with
  | [] => none
  | first :: segments => if first = rootSegment then root.follow? segments else none

def text (outcome : Outcome) : String :=
  match outcome.errorCode with
  | some code => code.name ++ " at " ++ pathText outcome.errorPath
  | none => if outcome.isValid then "valid" else "invalid at " ++ pathText outcome.errorPath

end Outcome

end TreeSyntax
