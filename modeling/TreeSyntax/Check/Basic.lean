import TreeSyntax.Check.Node

/-!
# Checking a tree against the grammar

One recursion covers every node type: the rule of the expected type decides what a node must look
like.  Each grammar step uses up one step of the allowance, and the first failure ends the check.
-/

namespace TreeSyntax

/-! ## Visiting parts in order -/

def checkItems {κ : Type} (key : String) (check : Json → Verdict κ) (index : Nat) :
    List Json → Verdict κ
  | [] => .ok ()
  | item :: items =>
      match (check item).withinIndex key index with
      | .error failure => .error failure
      | .ok () => checkItems key check (index + 1) items

def checkField (check : NodeType → Json → Verdict Violation) (field : FieldRule) (value : Json) :
    Verdict Violation :=
  if field.isList then
    match value with
    | .array items => checkItems field.key (check field.type) 0 items
    | _ => (Checked.fail (.notAList field.key)).within field.key
  else (check field.type value).within field.key

def checkFields (check : NodeType → Json → Verdict Violation) (members : Members) :
    List FieldRule → Verdict Violation
  | [] => .ok ()
  | field :: fields =>
      match member members field.key >>= checkField check field with
      | .error failure => .error failure
      | .ok () => checkFields check members fields

/-! ## One grammar step -/

def checkPrimitive (pattern : Pattern) (expected : NodeType) (node : Json) : Verdict Violation :=
  (pattern.read expected.name node).map fun _ => ()

/-- Follows a reference.  What it stands for must not be a reference again. -/
def checkReference (check : NodeType → Bool → Json → Verdict Violation) (expected : NodeType)
    (node : Json) : Verdict Violation :=
  match Reference.ofNode node with
  | .error failure => .error failure
  | .ok (.direct node) => check expected true node
  | .ok (.bound index) => (check .integerLiteral false index).within referenceKey
  | .ok (.inlined node) => (check expected true node).within referenceKey

def allowedTag? (tags : List NodeType) (tag : Option String) : Option NodeType :=
  tag.bind fun name => tags.find? fun type => type.name == name

def checkUnion (check : NodeType → Json → Verdict Violation) (tags : List NodeType)
    (node : Json) : Verdict Violation :=
  match Tagged.ofNode node with
  | .error failure => .error failure
  | .ok tagged =>
      match allowedTag? tags tagged.tag with
      | none => Checked.fail (.tagNotAllowed tagged.tag tags)
      | some type => (check type tagged.payload).within payloadKey

def checkRecord (check : NodeType → Json → Verdict Violation) (fields : List FieldRule)
    (node : Json) : Verdict Violation :=
  match expectKeys (fields.map FieldRule.key) node with
  | .error failure => .error failure
  | .ok members => checkFields check members fields

/-! ## The recursion -/

/-- Checks a node against a type in at most `allowance` grammar steps.  At a variable type the flag
tells that a reference was followed already. -/
def check : (allowance : Nat) → (expected : NodeType) → (resolved : Bool) → Json →
    Verdict Violation
  | 0, expected, _, _ => Checked.fail (.tooDeep expected)
  | allowance + 1, expected, resolved, node =>
      match expected.rule with
      | .primitive pattern => checkPrimitive pattern expected node
      | .union tags =>
          if expected.isVariable && !resolved then checkReference (check allowance) expected node
          else checkUnion (fun type => check allowance type false) tags node
      | .record fields =>
          if expected.isVariable && !resolved then checkReference (check allowance) expected node
          else checkRecord (fun type => check allowance type false) fields node

end TreeSyntax
