import TreeSyntax.Json.Shape
import TreeSyntax.Outcome.Basic

/-!
# The wire form of an outcome

An outcome is written as an object of three members; no error code is written as the empty
string.  It is read back from such an object, whatever else it holds, or from an array of the
three values.
-/

namespace TreeSyntax.Outcome

/-! ## Writing -/

def codeText : Option ErrorCode → String
  | none => ""
  | some code => code.name

def toMembers (outcome : Outcome) : Members :=
  [("isValid", .bool outcome.isValid),
    ("errorCode", .string (codeText outcome.errorCode)),
    ("errorPath", .array (outcome.errorPath.map .string))]

def toJson (outcome : Outcome) : Json :=
  .object outcome.toMembers

/-! ## Reading -/

def decodeCode (text : String) : Except Json.Mismatch ErrorCode :=
  match ErrorCode.ofName? text with
  | some code => .ok code
  | none => .error (.unknownVariant text (ErrorCode.all.map ErrorCode.name))

def decodeCodeText (text : String) : Except Json.Mismatch (Option ErrorCode) :=
  if text = "" then .ok none else (decodeCode text).map some

/-- A code that stands alone is a string, or a map of one member without a value. -/
def decodeLoneCode : Json → Except Json.Mismatch ErrorCode
  | .string text => decodeCode text
  | .object [(name, value)] =>
      match decodeCode name with
      | .error mismatch => .error mismatch
      | .ok code =>
          match value with
          | .null => .ok code
          | other => .error (.wrongType (Json.found other) "unit")
  | .object _ => .error (.wrongValue .map "map with a single key")
  | other => .error (.wrongType (Json.found other) "string or map")

structure Draft where
  isValid : Option Bool
  errorCode : Option (Option ErrorCode)
  errorPath : Option (List String)

def Draft.empty : Draft := ⟨none, none, none⟩

def Draft.finish (draft : Draft) : Except Json.Mismatch Outcome :=
  match draft.isValid, draft.errorCode, draft.errorPath with
  | none, _, _ => .error (.missingField "isValid")
  | _, none, _ => .error (.missingField "errorCode")
  | _, _, none => .error (.missingField "errorPath")
  | some isValid, some errorCode, some errorPath => .ok ⟨isValid, errorCode, errorPath⟩

def Draft.leading (draft : Draft) : Nat :=
  if draft.isValid.isNone then 0
  else if draft.errorCode.isNone then 1
  else if draft.errorPath.isNone then 2
  else 3

open Json in
def record : RecordShape Draft Outcome where
  name := "struct ValidationResult"
  fields := [
    ⟨"isValid", _, Draft.isValid, .bool, fun value draft => { draft with isValid := some value }⟩,
    ⟨"errorCode", _, Draft.errorCode, (Shape.text "a string").refine decodeCodeText,
      fun value draft => { draft with errorCode := some value }⟩,
    ⟨"errorPath", _, Draft.errorPath, (Shape.text "a string").list,
      fun value draft => { draft with errorPath := some value }⟩]
  start := .empty
  allowsUnknown := true
  finish := Draft.finish
  finishEarly draft :=
    .error (.wrongLength draft.leading "struct ValidationResult with 3 elements")

def shape : Json.Shape Outcome := record.shape

def ofJson (value : Json) : Except Json.Mismatch Outcome := shape.ofValue value

end TreeSyntax.Outcome
