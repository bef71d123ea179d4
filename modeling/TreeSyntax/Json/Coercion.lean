import TreeSyntax.Json.Printer
import TreeSyntax.Text.Pieces

/-!
# The text of a value

Every value can stand where a text is expected: a string stands for itself, a scalar for its
plain spelling, an array for the texts of its elements between commas, and an object for one
fixed text.  Only among elements is `null` empty.
-/

namespace TreeSyntax.Json

mutual

def plainText : Json → String
  | .null => "null"
  | .bool value => boolText value
  | .number value => value.text .plain
  | .string text => text
  | .array items => Text.joined "," (itemTexts items)
  | .object _ => "[object Object]"

def itemTexts : List Json → List String
  | [] => []
  | .null :: items => "" :: itemTexts items
  | item :: items => plainText item :: itemTexts items

end

end TreeSyntax.Json
