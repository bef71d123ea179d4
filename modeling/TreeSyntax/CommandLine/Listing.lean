import TreeSyntax.Grammar.Rule
import TreeSyntax.Text.Styled

/-!
# The listing of the grammar

One paragraph for each node type in the order of the grammar: its name, whether it is variable,
its kind, and what its rule says.
-/

namespace TreeSyntax.CommandLine

def fieldLine (field : FieldRule) : String :=
  let type := if field.isList then "[" ++ field.type.name ++ "]" else field.type.name
  "    " ++ field.key ++ ": " ++ type ++ "\n"

def ruleLines : Rule → String
  | .primitive pattern => "    /" ++ pattern.source ++ "/\n"
  | .record fields => String.join (fields.map fieldLine)
  | .union tags => "    one of " ++ String.intercalate " | " (tags.map NodeType.name) ++ "\n"

def typeListing (coloured : Bool) (type : NodeType) : String :=
  let marker := if type.isVariable then " (variable)" else ""
  Text.styled coloured .bold type.name ++ marker ++ " : " ++ type.rule.kind ++ "\n" ++
    ruleLines type.rule

def grammarListing (coloured : Bool) : String :=
  String.join (NodeType.all.map (typeListing coloured))

end TreeSyntax.CommandLine
