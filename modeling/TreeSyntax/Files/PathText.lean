import TreeSyntax.Text.Pieces

/-!
# Paths as written

A path keeps the spelling that it was given: empty segments and dots between slashes change
nothing about where it leads, but they stay in the text.  Two paths compare by the components that
count.
-/

namespace TreeSyntax

inductive PathStart where
  | relative
  /-- The path starts with a dot of its own. -/
  | here
  | root
  deriving DecidableEq, Repr

structure PathText where
  start : PathStart
  segments : List String
  deriving DecidableEq, Repr

namespace PathText

def ofText (text : String) : PathText :=
  match Text.pieces '/' text with
  | [""] => ⟨.relative, []⟩
  | "" :: segments => ⟨.root, segments⟩
  | "." :: segments => ⟨.here, segments⟩
  | segments => ⟨.relative, segments⟩

def text (path : PathText) : String :=
  match path.start with
  | .relative => Text.joined "/" path.segments
  | .here => Text.joined "/" ("." :: path.segments)
  | .root => "/" ++ Text.joined "/" path.segments

def isFiller (segment : String) : Bool :=
  segment == "" || segment == "."

def withoutTrailing (drop : String → Bool) (segments : List String) : List String :=
  (segments.reverse.dropWhile drop).reverse

/-- The path without its last component; the root and the empty path have none. -/
def parent? (path : PathText) : Option PathText :=
  match withoutTrailing isFiller path.segments with
  | [] =>
      match path.start with
      | .here => some ⟨.relative, []⟩
      | _ => none
  | segments => some ⟨path.start, withoutTrailing isFiller segments.dropLast⟩

/-- A path and the folders that it lies in, from the inside out, as far as they are named. -/
def ancestors (path : PathText) : List PathText :=
  let lengths := (List.range path.segments.length).reverse.map (· + 1)
  (lengths.map fun length => path.segments.take length).filterMap fun segments =>
    match segments.getLast? with
    | none => none
    | some last => if isFiller last then none else some ⟨path.start, segments⟩

/-! ## Joining -/

def isAbsolute (text : String) : Bool :=
  text.toList.head? == some '/'

def join (folder target : String) : String :=
  if isAbsolute target || folder = "" then target
  else if folder.toList.getLast? = some '/' then folder ++ target
  else folder ++ "/" ++ target

/-! ## Components and their order -/

inductive Component where
  | root
  | here
  | up
  | name (name : String)
  deriving DecidableEq, Repr

def Component.rank : Component → Nat
  | .root => 0
  | .here => 1
  | .up => 2
  | .name _ => 3

def Component.before : Component → Component → Bool
  | .name left, .name right => left < right
  | left, right => left.rank < right.rank

def segmentComponent? (segment : String) : Option Component :=
  if isFiller segment then none
  else if segment = ".." then some .up
  else some (.name segment)

def components (path : PathText) : List Component :=
  let rest := path.segments.filterMap segmentComponent?
  match path.start with
  | .relative => rest
  | .here => .here :: rest
  | .root => .root :: rest

def componentsAtMost : List Component → List Component → Bool
  | [], _ => true
  | _ :: _, [] => false
  | left :: lefts, right :: rights =>
      if left.before right then true
      else if right.before left then false
      else componentsAtMost lefts rights

def atMost (left right : String) : Bool :=
  componentsAtMost (ofText left).components (ofText right).components

end PathText

end TreeSyntax
