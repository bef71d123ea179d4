import TreeSyntax.Json.Basic
import TreeSyntax.Number.Layout

/-!
# JSON texts

The compact text of a value has no blanks; the indented one puts every member and every element
on a line of its own, two blanks deeper than its container.
-/

namespace TreeSyntax

/-! ## Numbers -/

def integerText (value : Int) : String :=
  let digits := Nat.toDigits 10 value.natAbs
  String.ofList (if value < 0 then '-' :: digits else digits)

def Number.text (layout : NumberLayout) : Number → String
  | .integer value => integerText value
  | .float value => layout.text value

namespace Json

/-! ## Strings -/

def escapeControl (character : Char) : List Char :=
  '\\' :: 'u' :: '0' :: '0' ::
    [Nat.digitChar (character.toNat / 16), Nat.digitChar (character.toNat % 16)]

def escapeCharacter (character : Char) : List Char :=
  match character with
  | '"' => ['\\', '"']
  | '\\' => ['\\', '\\']
  | '\x08' => ['\\', 'b']
  | '\x0c' => ['\\', 'f']
  | '\n' => ['\\', 'n']
  | '\r' => ['\\', 'r']
  | '\t' => ['\\', 't']
  | _ => if character.toNat < 0x20 then escapeControl character else [character]

def stringText (text : String) : String :=
  String.ofList ('"' :: text.toList.flatMap escapeCharacter ++ ['"'])

/-! ## Scalars -/

def boolText : Bool → String
  | true => "true"
  | false => "false"

/-! ## The compact text -/

def bracketed (parts : List String) : String :=
  "[" ++ String.intercalate "," parts ++ "]"

def braced (parts : List String) : String :=
  "\x7b" ++ String.intercalate "," parts ++ "\x7d"

mutual

def compact : Json → String
  | .null => "null"
  | .bool value => boolText value
  | .number value => value.text .json
  | .string text => stringText text
  | .array items => bracketed (compactItems items)
  | .object members => braced (compactMembers members)

def compactItems : List Json → List String
  | [] => []
  | item :: items => compact item :: compactItems items

def compactMembers : List (String × Json) → List String
  | [] => []
  | (key, value) :: members => (stringText key ++ ":" ++ compact value) :: compactMembers members

end

/-! ## The indented text -/

def margin (depth : Nat) : String :=
  String.ofList (List.replicate (2 * depth) ' ')

/-- A container's parts on lines of their own, or the two brackets alone. -/
def block (depth : Nat) (opening closing : String) (parts : List String) : String :=
  match parts with
  | [] => opening ++ closing
  | parts =>
      opening ++ "\n" ++
        String.intercalate ",\n" (parts.map fun part => margin (depth + 1) ++ part) ++
        "\n" ++ margin depth ++ closing

mutual

def indentedAt (depth : Nat) : Json → String
  | .array items => block depth "[" "]" (indentedItems (depth + 1) items)
  | .object members => block depth "\x7b" "\x7d" (indentedMembers (depth + 1) members)
  | .null => "null"
  | .bool value => boolText value
  | .number value => value.text .json
  | .string text => stringText text

def indentedItems (depth : Nat) : List Json → List String
  | [] => []
  | item :: items => indentedAt depth item :: indentedItems depth items

def indentedMembers (depth : Nat) : List (String × Json) → List String
  | [] => []
  | (key, value) :: members =>
      (stringText key ++ ": " ++ indentedAt depth value) :: indentedMembers depth members

end

def indented (value : Json) : String :=
  indentedAt 0 value

end Json

end TreeSyntax
