import TreeSyntax.Grammar.Rule
import TreeSyntax.Json.Printer
import TreeSyntax.Outcome.Basic
import TreeSyntax.Text.Quoted

/-!
# Violations and events

A violation is what a node does wrong.  It decides both the error code that is reported and the
one event that tells where the failure began.
-/

namespace TreeSyntax

/-! ## Events -/

inductive Level where
  | debug
  | trace
  deriving DecidableEq, Repr

inductive Detail where
  | text (text : String)
  | number (value : Nat)
  deriving DecidableEq, Repr

structure Event where
  level : Level
  message : String
  details : Entries Detail
  deriving DecidableEq, Repr

/-! ## Violations -/

inductive Violation where
  | tooDeep (expected : NodeType)
  | unknownType (expected : String)
  | primitiveMismatch (expected : String) (node : Json)
  | tagNotAllowed (tag : Option String) (allowed : List NodeType)
  | notAnObject (node : Json)
  | missingKey (key : String)
  | extraKey (key : String)
  | notAList (key : String)
  deriving Repr

namespace Violation

def code : Violation → ErrorCode
  | .tooDeep _ => .tooDeep
  | .unknownType _ => .typeNotAllowed
  | .primitiveMismatch _ _ => .invalidPrimitive
  | .tagNotAllowed _ _ => .typeNotAllowed
  | .notAnObject _ => .missingKey
  | .missingKey _ => .missingKey
  | .extraKey _ => .extraKey
  | .notAList _ => .invalidList

def tagText : Option String → String
  | none => "None"
  | some tag => "Some(" ++ Text.quoted tag ++ ")"

def typesText (types : List NodeType) : String :=
  "[" ++ Text.joined ", " (types.map fun type => Text.quoted type.name) ++ "]"

/-- The event of a violation under a depth limit, which the failing step has passed by one. -/
def event (limit : Nat) : Violation → Event
  | .tooDeep expected =>
      ⟨.trace, "depth limit reached",
        [("depth", .number (limit + 1)), ("expected", .text expected.name)]⟩
  | .unknownType expected => ⟨.trace, "no grammar rule", [("expected", .text expected)]⟩
  | .primitiveMismatch expected node =>
      ⟨.trace, "primitive mismatch",
        [("expected", .text expected), ("token", .text node.compact)]⟩
  | .tagNotAllowed tag allowed =>
      ⟨.trace, "tag not allowed",
        [("tag", .text (tagText tag)), ("allowed", .text (typesText allowed))]⟩
  | .notAnObject node => ⟨.trace, "expected an object", [("token", .text node.compact)]⟩
  | .missingKey key => ⟨.trace, "missing key", [("key", .text key)]⟩
  | .extraKey key => ⟨.trace, "extra key", [("key", .text key)]⟩
  | .notAList key => ⟨.trace, "expected a list", [("key", .text key)]⟩

end Violation

def Checked.events {α : Type} (limit : Nat) : Checked Violation α → List Event
  | .ok _ => []
  | .error failure => [failure.reason.event limit]

end TreeSyntax
