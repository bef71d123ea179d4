import TreeSyntax.Json.Basic
import TreeSyntax.Text.Pieces
import TreeSyntax.Text.Unsigned

/-!
# Following a path into a value

Two spellings of a path lead into a value.  A trail is a list of segments, each a key of an
object or the place of an element of an array.  A pointer is one text of segments after slashes,
stricter about array indices.
-/

namespace TreeSyntax.Json

/-! ## Trails -/

def child? (segment : String) : Json → Option Json
  | .object members => Entries.find? members segment
  | .array items => (Text.unsigned? segment).bind fun index => items[index]?
  | _ => none

def follow? (value : Json) : List String → Option Json
  | [] => some value
  | segment :: segments => (value.child? segment).bind fun child => child.follow? segments

/-! ## Pointers -/

/-- Replaces `~1` by a slash, then `~0` by a tilde. -/
def unescapeSlashes : List Char → List Char
  | '~' :: '1' :: rest => '/' :: unescapeSlashes rest
  | character :: rest => character :: unescapeSlashes rest
  | [] => []

def unescapeTildes : List Char → List Char
  | '~' :: '0' :: rest => '~' :: unescapeTildes rest
  | character :: rest => character :: unescapeTildes rest
  | [] => []

def unescapeSegment (segment : List Char) : String :=
  String.ofList (unescapeTildes (unescapeSlashes segment))

def pointerSegments? (pointer : String) : Option (List String) :=
  match pointer.toList with
  | [] => some []
  | '/' :: rest => some ((Text.piecesOf '/' rest).map unescapeSegment)
  | _ => none

def pointerChild? (segment : String) : Json → Option Json
  | .object members => Entries.find? members segment
  | .array items => (Text.canonicalUnsigned? segment).bind fun index => items[index]?
  | _ => none

def followPointerSegments? (value : Json) : List String → Option Json
  | [] => some value
  | segment :: segments =>
      (value.pointerChild? segment).bind fun child => child.followPointerSegments? segments

def pointer? (value : Json) (pointer : String) : Option Json :=
  (pointerSegments? pointer).bind value.followPointerSegments?

end TreeSyntax.Json
