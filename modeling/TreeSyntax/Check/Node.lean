import TreeSyntax.Check.Event
import TreeSyntax.Json.Coercion

/-!
# Nodes

What a JSON value is as a node of a program tree: the text of a primitive, an object with an
exact set of keys, a reference at a variable position, or a tag with its payload.
-/

namespace TreeSyntax

/-! ## Primitives -/

def Pattern.read (pattern : Pattern) (expected : String) (node : Json) : Checked Violation String :=
  if pattern.accepts node.plainText then .ok node.plainText
  else Checked.fail (.primitiveMismatch expected node)

/-- The text of a node of a primitive type; no other type has one. -/
def textOf (typeName : String) (node : Json) : Checked Violation String :=
  match (NodeType.ofName? typeName).map NodeType.rule with
  | some (.primitive pattern) => pattern.read typeName node
  | _ => Checked.fail (.primitiveMismatch typeName node)

/-! ## Exact keys -/

/-- The members of an object whose keys are exactly the expected ones.  A missing key is reported
before an extra one, and a value that is no object has no keys. -/
def expectKeys (expected : List String) (node : Json) : Checked Violation Members :=
  match node with
  | .object members =>
      match expected.find? fun key => !Entries.has members key with
      | some missing => Checked.fail (.missingKey missing)
      | none =>
          match (Entries.names members).find? fun key => !expected.contains key with
          | some extra => Checked.fail (.extraKey extra)
          | none => .ok members
  | other => Checked.fail (.notAnObject other)

def member (members : Members) (key : String) : Checked Violation Json :=
  match Entries.find? members key with
  | some value => .ok value
  | none => Checked.fail (.missingKey key)

/-! ## References -/

def referenceFlagKey : String := "isVariableReference"

def referenceKey : String := "reference"

inductive Reference where
  | direct (node : Json)
  /-- The index of a binding. -/
  | bound (index : Json)
  /-- A node given in place. -/
  | inlined (node : Json)
  deriving Repr

def isReference : Json → Bool
  | .object members => Entries.has members referenceFlagKey
  | _ => false

/-- Only the text `true` as the flag marks the index of a binding. -/
def Reference.ofNode (node : Json) : Checked Violation Reference :=
  if isReference node then do
    let members ← expectKeys [referenceFlagKey, referenceKey] node
    let flag ← member members referenceFlagKey
    let content ← member members referenceKey
    if flag.text? = some "true" then return .bound content else return .inlined content
  else return .direct node

/-! ## Tagged nodes -/

def tagKey : String := "discriminator"

def payloadKey : String := "payload"

/-- There is no tag when it is not a text. -/
structure Tagged where
  tag : Option String
  payload : Json
  deriving Repr

def Tagged.ofNode (node : Json) : Checked Violation Tagged := do
  let members ← expectKeys [tagKey, payloadKey] node
  let tag ← member members tagKey
  let payload ← member members payloadKey
  return ⟨tag.text?, payload⟩

end TreeSyntax
