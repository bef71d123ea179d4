/-!
# Patterns of primitive types

The text of a primitive value must match its pattern as a whole.
-/

namespace TreeSyntax

inductive Pattern where
  | anything
  | digits
  | oneOf (words : List String)
  deriving DecidableEq, Repr

namespace Pattern

def isDigit (character : Char) : Bool :=
  '0' ≤ character && character ≤ '9'

def accepts : Pattern → String → Bool
  | .anything, _ => true
  | .digits, text => !text.toList.isEmpty && text.toList.all isDigit
  | .oneOf words, text => words.contains text

def source : Pattern → String
  | .anything => "(?s:.*)"
  | .digits => "[0-9]+"
  | .oneOf words => String.intercalate "|" words

def anchoredSource (pattern : Pattern) : String :=
  "\\A(?:" ++ pattern.source ++ ")\\z"

end Pattern

end TreeSyntax
