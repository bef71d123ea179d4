import TreeSyntax.Text.Pieces

/-!
# Verdicts

A check ends well or with a failure: a reason, and the path to the node at fault.  The path grows
from the inside out, one segment for each part that the check was working in.
-/

namespace TreeSyntax

/-! ## Error codes -/

inductive ErrorCode where
  | invalidInput
  | invalidPrimitive
  | invalidList
  | missingKey
  | extraKey
  | typeNotAllowed
  | tooDeep
  deriving DecidableEq, Repr

namespace ErrorCode

def name : ErrorCode → String
  | .invalidInput => "invalid-input"
  | .invalidPrimitive => "invalid-primitive"
  | .invalidList => "invalid-list"
  | .missingKey => "missing-key"
  | .extraKey => "extra-key"
  | .typeNotAllowed => "type-not-allowed"
  | .tooDeep => "too-deep"

def all : List ErrorCode :=
  [.invalidInput, .invalidPrimitive, .invalidList, .missingKey, .extraKey, .typeNotAllowed,
    .tooDeep]

def ofName? (name : String) : Option ErrorCode :=
  all.find? fun code => code.name == name

theorem ofName?_name (code : ErrorCode) : ofName? code.name = some code := by
  cases code <;> decide

end ErrorCode

/-! ## Failures -/

structure Failure (κ : Type) where
  reason : κ
  path : List String
  deriving DecidableEq, Repr

namespace Failure

variable {κ : Type}

def here (reason : κ) : Failure κ := ⟨reason, []⟩

@[simp] theorem reason_here (reason : κ) : (here reason).reason = reason := rfl

@[simp] theorem path_here (reason : κ) : (here reason).path = [] := rfl

def within (segment : String) (failure : Failure κ) : Failure κ :=
  { failure with path := segment :: failure.path }

@[simp] theorem reason_within (segment : String) (failure : Failure κ) :
    (failure.within segment).reason = failure.reason := rfl

@[simp] theorem path_within (segment : String) (failure : Failure κ) :
    (failure.within segment).path = segment :: failure.path := rfl

def map {ι : Type} (convert : κ → ι) (failure : Failure κ) : Failure ι :=
  ⟨convert failure.reason, failure.path⟩

end Failure

def pathText (path : List String) : String :=
  "[" ++ Text.joined ", " path ++ "]"

def Failure.text (failure : Failure ErrorCode) : String :=
  failure.reason.name ++ " at " ++ pathText failure.path

/-! ## Checks -/

abbrev Checked (κ α : Type) : Type := Except (Failure κ) α

abbrev Verdict (κ : Type) : Type := Checked κ Unit

def indexText (index : Nat) : String :=
  String.ofList (Nat.toDigits 10 index)

namespace Checked

variable {κ α : Type}

def fail (reason : κ) : Checked κ α := .error (.here reason)

def within (segment : String) : Checked κ α → Checked κ α
  | .ok value => .ok value
  | .error failure => .error (failure.within segment)

@[simp] theorem within_ok (segment : String) (value : α) :
    within segment (.ok value : Checked κ α) = .ok value := rfl

@[simp] theorem within_error (segment : String) (failure : Failure κ) :
    within segment (.error failure : Checked κ α) = .error (failure.within segment) := rfl

/-- Inside an element of a list: the key of the list, then the index. -/
def withinIndex (key : String) (index : Nat) (checked : Checked κ α) : Checked κ α :=
  (checked.within (indexText index)).within key

def mapReason {ι : Type} (convert : κ → ι) : Checked κ α → Checked ι α
  | .ok value => .ok value
  | .error failure => .error (failure.map convert)

@[simp] theorem mapReason_ok {ι : Type} (convert : κ → ι) (value : α) :
    mapReason convert (.ok value : Checked κ α) = .ok value := rfl

@[simp] theorem mapReason_error {ι : Type} (convert : κ → ι) (failure : Failure κ) :
    mapReason convert (.error failure : Checked κ α) = .error (failure.map convert) := rfl

end Checked

end TreeSyntax
