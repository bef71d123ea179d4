import TreeSyntax.Text.Printable

/-!
# Quoted text

Messages show a text between double quotes; what would be unreadable there is written with a
backslash.
-/

namespace TreeSyntax.Text

def escapeByNumber (character : Char) : List Char :=
  '\\' :: 'u' :: '\x7b' :: Nat.toDigits 16 character.toNat ++ ['\x7d']

def quoteCharacter (character : Char) : List Char :=
  match character with
  | '\x00' => ['\\', '0']
  | '\t' => ['\\', 't']
  | '\n' => ['\\', 'n']
  | '\r' => ['\\', 'r']
  | '"' => ['\\', '"']
  | '\\' => ['\\', '\\']
  | _ => if isPrintable character then [character] else escapeByNumber character

def quoted (text : String) : String :=
  String.ofList ('"' :: text.toList.flatMap quoteCharacter ++ ['"'])

end TreeSyntax.Text
