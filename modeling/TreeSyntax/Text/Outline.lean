import TreeSyntax.Text.Quoted

/-!
# Outlines

An outline shows a value made of named parts, with each part on a line of its own and indented
by four blanks more than what it is a part of.
-/

namespace TreeSyntax.Text

inductive Outline where
  | atom (text : String)
  | record (name : String) (fields : List (String × Outline))
  | wrapped (name : String) (part : Outline)
  | list (parts : List Outline)

namespace Outline

def ofText (text : String) : Outline := .atom (quoted text)

def ofOption : Option String → Outline
  | none => .atom "None"
  | some text => .wrapped "Some" (ofText text)

def ofBool (value : Bool) : Outline := .atom (if value then "true" else "false")

def ofNat (value : Nat) : Outline := .atom (String.ofList (Nat.toDigits 10 value))

def ofTexts (texts : List String) : Outline := .list (texts.map ofText)

def indent : String := "    "

def indented (lines : List String) : List String :=
  lines.map (indent ++ ·)

def mapFirst (change : String → String) : List String → List String
  | [] => []
  | line :: lines => change line :: lines

def mapLast (change : String → String) : List String → List String
  | [] => []
  | [line] => [change line]
  | line :: lines => line :: mapLast change lines

def asPart (lines : List String) : List String :=
  indented (mapLast (· ++ ",") lines)

mutual

def lines : Outline → List String
  | .atom text => [text]
  | .record name fields => (name ++ " \x7b") :: fieldLines fields ++ ["\x7d"]
  | .wrapped name part => (name ++ "(") :: asPart (lines part) ++ [")"]
  | .list [] => ["[]"]
  | .list parts => "[" :: partLines parts ++ ["]"]

def fieldLines : List (String × Outline) → List String
  | [] => []
  | (name, part) :: fields =>
      asPart (mapFirst ((name ++ ": ") ++ ·) (lines part)) ++ fieldLines fields

def partLines : List Outline → List String
  | [] => []
  | part :: parts => asPart (lines part) ++ partLines parts

end

def text (outline : Outline) : String :=
  String.intercalate "\n" outline.lines

end Outline

end TreeSyntax.Text
