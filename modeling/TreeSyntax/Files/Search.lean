import TreeSyntax.Files.FileTree
import TreeSyntax.Files.Glob

/-!
# Searching a file tree

A pattern is searched component by component.  Within one folder the matches come in the order
of their names; a folder found by a recursive component comes before what lies inside it.
-/

namespace TreeSyntax

namespace Glob

/-! ## Components -/

inductive ComponentPattern where
  | fixed (name : String)
  | wildcard (tokens : List GlobToken)
  | folders
  deriving DecidableEq, Repr

def componentPattern (tokens : List GlobToken) : ComponentPattern :=
  match literal? tokens with
  | some name => .fixed (String.ofList name)
  | none => if tokens.contains .anyFolders then .folders else .wildcard tokens

/-- Recursive components in a row say no more than one of them. -/
def collapse : List ComponentPattern → List ComponentPattern
  | .folders :: .folders :: rest => collapse (.folders :: rest)
  | component :: rest => component :: collapse rest
  | [] => []

structure Pattern where
  isAbsolute : Bool
  components : List ComponentPattern
  /-- The pattern ends in a slash. -/
  onlyFolders : Bool
  deriving DecidableEq, Repr

/-- The pieces of a path; a slash at the end does not start another one. -/
def componentTexts (path : String) : List String :=
  let texts := Text.pieces '/' path
  if texts.getLast? = some "" then texts.dropLast else texts

def withoutFirst (text : String) : String :=
  String.ofList (text.toList.drop 1)

/-- The pattern is parsed as a whole and then in its components, which may fail on their own. -/
def Pattern.ofText (text : String) : Except GlobError Pattern := do
  let _ ← parse text
  let isAbsolute := PathText.isAbsolute text
  let inner := if isAbsolute then withoutFirst text else text
  let components ← (componentTexts inner).mapM parse
  let components := if inner = "" then [[]] else components
  return ⟨isAbsolute, collapse (components.map componentPattern), text.toList.getLast? = some '/'⟩

/-! ## Searching -/

/-- Paths that lead to the working folder, in whose listings no folder is named. -/
def isHere (path : String) : Bool :=
  (PathText.ofText path).components = [.here]

def extend (path name : String) : String :=
  if isHere path then name else PathText.join path name

/-- The special names that a wildcard starting with a dot may match. -/
def specialNames (tokens : List GlobToken) : List String :=
  if tokens.head? = some (.literal '.') then
    ["..", "."].filter fun name => matchesName tokens name.toList
  else []

section

variable (tree : FileTree) (onlyFolders : Bool)

def kept (path : String) : List String :=
  if onlyFolders && !tree.isFolder path then [] else [path]

def children (path : String) : List String :=
  if tree.isFolder path then tree.list path else []

/-- A folder found by a recursive component, and all folders and files below it, each with its
name, as deep as the fuel allows. -/
def descend : Nat → String → String → List (String × String)
  | 0, _, _ => []
  | depth + 1, name, path =>
      (name, path) ::
        (children tree path).flatMap fun child => descend depth child (extend path child)

def below (path : String) : List (String × String) :=
  (children tree path).flatMap fun child =>
    descend tree (tree.height + 1) child (extend path child)

def matchesComponent (component : ComponentPattern) (name : String) : Bool :=
  match component with
  | .fixed text => text = name
  | .wildcard tokens => matchesName tokens name.toList
  | .folders => false

def search : List ComponentPattern → String → List String
  | [], path => kept tree onlyFolders path
  | .fixed name :: rest, path =>
      let next := extend path name
      let found :=
        if name = "." || name = ".." then tree.isFolder path else tree.existsAt next
      if found then search rest next else []
  | .wildcard tokens :: rest, path =>
      if tree.isFolder path then
        ((specialNames tokens).flatMap fun name => search rest (PathText.join path name)) ++
          ((children tree path).flatMap fun name =>
            if matchesName tokens name.toList then search rest (extend path name) else [])
      else []
  | .folders :: rest, path =>
      (below tree path).flatMap fun (name, inner) =>
        match rest with
        | [] => if tree.isFolder inner then [inner] else []
        | component :: rest =>
            if matchesComponent component name then search rest inner else []

end

def matched (tree : FileTree) (pattern : Pattern) : List String :=
  search tree pattern.onlyFolders pattern.components (if pattern.isAbsolute then "/" else ".")

def expand (tree : FileTree) (text : String) : Except GlobError (List String) :=
  (Pattern.ofText text).map (matched tree)

end Glob

end TreeSyntax
