import TreeSyntax.Grammar.Pattern

/-!
# The grammar

Every node type has one rule.  A node of a primitive type is matched by its text, a record has
exactly the fields of its rule, and a union holds a tag that names the type of its payload.  At
the variable types a node may be replaced by a reference.
-/

namespace TreeSyntax

inductive NodeType where
  | program
  | functionDefinition
  | function
  | domainParam
  | valueParam
  | functionSignature
  | application
  | ifelse
  | domain
  | value
  | stringLiteral
  | boolLiteral
  | integerLiteral
  | domainLiteral
  deriving DecidableEq, Repr

structure FieldRule where
  key : String
  type : NodeType
  isList : Bool
  deriving DecidableEq, Repr

inductive Rule where
  | primitive (pattern : Pattern)
  | record (fields : List FieldRule)
  | union (tags : List NodeType)
  deriving DecidableEq, Repr

namespace FieldRule

def one (key : String) (type : NodeType) : FieldRule := ⟨key, type, false⟩

def many (key : String) (type : NodeType) : FieldRule := ⟨key, type, true⟩

end FieldRule

namespace NodeType

def name : NodeType → String
  | .program => "program"
  | .functionDefinition => "function-definition"
  | .function => "function"
  | .domainParam => "domainParam"
  | .valueParam => "valueParam"
  | .functionSignature => "function-signature"
  | .application => "application"
  | .ifelse => "ifelse"
  | .domain => "domain"
  | .value => "value"
  | .stringLiteral => "string-literal"
  | .boolLiteral => "bool-literal"
  | .integerLiteral => "integer-literal"
  | .domainLiteral => "domain-literal"

def all : List NodeType :=
  [.program, .functionDefinition, .function, .domainParam, .valueParam, .functionSignature,
    .application, .ifelse, .domain, .value, .stringLiteral, .boolLiteral, .integerLiteral,
    .domainLiteral]

theorem mem_all (type : NodeType) : type ∈ all := by
  cases type <;> decide

def ofName? (name : String) : Option NodeType :=
  all.find? fun type => type.name == name

theorem ofName?_name (type : NodeType) : ofName? type.name = some type := by
  cases type <;> decide

def rule : NodeType → Rule
  | .program => .record [.many "functions" .functionDefinition]
  | .functionDefinition => .record [.one "id" .stringLiteral, .one "function" .function]
  | .function => .record [
      .one "name" .stringLiteral,
      .one "description" .stringLiteral,
      .many "domainParams" .domainParam,
      .many "valueParams" .valueParam,
      .one "domain" .domain,
      .one "body" .value]
  | .domainParam => .record [.one "name" .stringLiteral, .one "description" .stringLiteral]
  | .valueParam => .record [
      .one "name" .stringLiteral,
      .one "description" .stringLiteral,
      .one "domain" .domain]
  | .functionSignature => .record [
      .one "domain" .domain,
      .one "domainParamsCount" .integerLiteral,
      .many "valueParamDomains" .domain]
  | .application => .record [
      .one "function" .function,
      .many "valueArgs" .value,
      .many "domainArgs" .domain]
  | .ifelse => .record [
      .one "domain" .domain,
      .one "condition" .value,
      .one "if" .value,
      .one "else" .value]
  | .domain => .union [.domainLiteral, .functionSignature]
  | .value => .union [
      .application, .ifelse, .function, .integerLiteral, .stringLiteral, .boolLiteral]
  | .stringLiteral => .primitive .anything
  | .boolLiteral => .primitive (.oneOf ["true", "false"])
  | .integerLiteral => .primitive .digits
  | .domainLiteral => .primitive (.oneOf ["string", "integer", "bool", "function"])

/-- The types at which a reference may stand for a node. -/
def isVariable : NodeType → Bool
  | .function => true
  | .domain => true
  | .value => true
  | _ => false

end NodeType

namespace Rule

def kind : Rule → String
  | .primitive _ => "primitive"
  | .record _ => "object"
  | .union _ => "multitype"

def referencedTypes : Rule → List NodeType
  | .primitive _ => []
  | .record fields => fields.map FieldRule.type
  | .union tags => tags

end Rule

end TreeSyntax
