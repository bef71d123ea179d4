/-!
# Styled text

Terminal styles, and whether they are to be shown at all.
-/

namespace TreeSyntax.Text

inductive Style where
  | bold
  | red
  | green
  | yellow
  deriving DecidableEq, Repr

def Style.code : Style → String
  | .bold => "1"
  | .red => "31"
  | .green => "32"
  | .yellow => "33"

def rendition (code : String) : List Char :=
  '\x1b' :: '[' :: code.toList ++ ['m']

def reset : List Char := rendition "0"

/-- Opens a style again after every reset inside a text. -/
def reopened (style : Style) : List Char → List Char
  | '\x1b' :: '[' :: '0' :: 'm' :: rest => reset ++ rendition style.code ++ reopened style rest
  | character :: rest => character :: reopened style rest
  | [] => []

def styled (coloured : Bool) (style : Style) (text : String) : String :=
  if coloured then String.ofList (rendition style.code ++ reopened style text.toList ++ reset)
  else text

/-! ## Settings -/

/-- What the surroundings of a run say about colours.  A setting is on unless it reads zero. -/
structure ColourSettings where
  forced : Option String
  refused : Option String
  wanted : Option String
  toTerminal : Bool
  deriving DecidableEq, Repr

def isOn (setting : String) : Bool := setting != "0"

/-- To force colours beats to refuse them, and both beat what suits the terminal. -/
def ColourSettings.coloured (settings : ColourSettings) : Bool :=
  if settings.forced.any isOn then true
  else if settings.refused.isSome then false
  else (settings.wanted.map isOn).getD true && settings.toTerminal

end TreeSyntax.Text
