import TreeSyntax.Entries
import TreeSyntax.Files.PathText

/-!
# File trees

The files and folders below a working folder, as a value.  A path is walked one segment at a
time; every segment but a name that may be new has to be there, and only folders can be walked
on from.  What lies outside the working folder exists but is not known.
-/

namespace TreeSyntax

/-! ## Errors -/

inductive FileError where
  | notFound
  | alreadyExists
  | notAFolder
  | isAFolder
  | notUtf8
  | nameTooLong
  | nulInName
  deriving DecidableEq, Repr

def FileError.message : FileError → String
  | .notFound => "No such file or directory (os error 2)"
  | .alreadyExists => "File exists (os error 17)"
  | .notAFolder => "Not a directory (os error 20)"
  | .isAFolder => "Is a directory (os error 21)"
  | .nameTooLong => "File name too long (os error 36)"
  | .notUtf8 => "stream did not contain valid UTF-8"
  | .nulInName => "file name contained an unexpected NUL byte"

/-! ## Trees -/

inductive FileNode where
  | file (content : ByteArray)
  | folder

instance : DecidableEq FileNode
  | .folder, .folder => .isTrue rfl
  | .folder, .file _ => .isFalse nofun
  | .file _, .folder => .isFalse nofun
  | .file first, .file second =>
      if same : first.data = second.data then
        .isTrue (congrArg FileNode.file (ByteArray.ext same))
      else .isFalse fun equal => same (congrArg ByteArray.data (FileNode.file.inj equal))

/-- The names that lead from the working folder to a place in it. -/
abbrev Place : Type := List String

structure FileTree where
  nodes : List (Place × FileNode)
  deriving DecidableEq

namespace FileTree

def empty : FileTree := ⟨[]⟩

def node? (tree : FileTree) (place : Place) : Option FileNode :=
  if place.isEmpty then some .folder else tree.nodes.lookup place

def putNode (place : Place) (node : FileNode) : List (Place × FileNode) → List (Place × FileNode)
  | [] => [(place, node)]
  | entry :: rest =>
      if entry.1 = place then (place, node) :: rest else entry :: putNode place node rest

def put (tree : FileTree) (place : Place) (node : FileNode) : FileTree :=
  ⟨putNode place node tree.nodes⟩

def nameAtMost (left right : String) : Bool := !(right < left : Bool)

def childNames (tree : FileTree) (place : Place) : List String :=
  let names := tree.nodes.filterMap fun entry =>
    if entry.1.dropLast = place then entry.1.getLast? else none
  names.mergeSort nameAtMost

def height (tree : FileTree) : Nat :=
  tree.nodes.foldl (fun height entry => max height entry.1.length) 0

/-! ## Walking -/

inductive Spot where
  | inside (place : Place)
  | outside
  deriving DecidableEq, Repr

def Spot.up : Spot → Spot
  | .inside [] => .outside
  | .inside place => .inside place.dropLast
  | .outside => .outside

def nodeAt? (tree : FileTree) : Spot → Option FileNode
  | .inside place => tree.node? place
  | .outside => some .folder

def isFolderAt (tree : FileTree) (spot : Spot) : Bool :=
  tree.nodeAt? spot = some .folder

def child? (tree : FileTree) (name : String) : Spot → Option Spot
  | .inside place =>
      if (tree.node? (place ++ [name])).isSome then some (.inside (place ++ [name])) else none
  | .outside => none

def greatestNameSize : Nat := 255

def greatestPathSize : Nat := 4095

def lookUp (tree : FileTree) (name : String) (spot : Spot) : Except FileError Spot :=
  if greatestNameSize < name.utf8ByteSize then .error .nameTooLong
  else
    match tree.child? name spot with
    | none => .error .notFound
    | some next => .ok next

def walkFrom (tree : FileTree) (spot : Spot) : List String → Except FileError Spot
  | [] => .ok spot
  | segment :: segments =>
      if tree.isFolderAt spot then
        if PathText.isFiller segment then walkFrom tree spot segments
        else if segment = ".." then walkFrom tree spot.up segments
        else
          match tree.lookUp segment spot with
          | .error error => .error error
          | .ok next => walkFrom tree next segments
      else .error .notAFolder

def startSpot : PathStart → Spot
  | .root => .outside
  | _ => .inside []

def hasNul (text : String) : Bool :=
  text.toList.contains '\x00'

def pathError? (path : String) : Option FileError :=
  if hasNul path then some .nulInName
  else if path = "" then some .notFound
  else if greatestPathSize < path.utf8ByteSize then some .nameTooLong
  else none

def walk (tree : FileTree) (path : String) : Except FileError Spot :=
  match pathError? path with
  | some error => .error error
  | none =>
      let path := PathText.ofText path
      tree.walkFrom (startSpot path.start) path.segments

def existsAt (tree : FileTree) (path : String) : Bool :=
  match tree.walk path with
  | .ok _ => true
  | .error _ => false

def isFolder (tree : FileTree) (path : String) : Bool :=
  match tree.walk path with
  | .ok spot => tree.isFolderAt spot
  | .error _ => false

def list (tree : FileTree) (path : String) : List String :=
  match tree.walk path with
  | .ok (.inside place) => tree.childNames place
  | _ => []

/-! ## Reading -/

def read (tree : FileTree) (path : String) : Except FileError String :=
  match tree.walk path with
  | .error error => .error error
  | .ok spot =>
      match tree.nodeAt? spot with
      | some (.file content) =>
          match String.fromUTF8? content with
          | some text => .ok text
          | none => .error .notUtf8
      | some .folder => .error .isAFolder
      | none => .error .notFound

/-! ## Changing -/

def parentSpot (tree : FileTree) (start : PathStart) (segments : List String) :
    Except FileError Spot :=
  match tree.walkFrom (startSpot start) segments.dropLast with
  | .error error => .error error
  | .ok spot => if tree.isFolderAt spot then .ok spot else .error .notAFolder

/-- Puts a node under a new or known name; nothing outside is recorded. -/
def putIn (tree : FileTree) (spot : Spot) (name : String) (node : FileNode) : FileTree :=
  match spot with
  | .inside place => tree.put (place ++ [name]) node
  | .outside => tree

def isDots (segment : String) : Bool :=
  segment == "." || segment == ".."

def makeFolder (tree : FileTree) (path : PathText) : Except FileError FileTree :=
  let segments := PathText.withoutTrailing (· == "") path.segments
  match pathError? path.text, segments.getLast? with
  | some error, _ => .error error
  | none, none => .error .alreadyExists
  | none, some last =>
      match tree.parentSpot path.start segments with
      | .error error => .error error
      | .ok spot =>
          if isDots last then .error .alreadyExists
          else
            match tree.lookUp last spot with
            | .ok _ => .error .alreadyExists
            | .error .notFound => .ok (tree.putIn spot last .folder)
            | .error error => .error error

/-- Makes a folder and those around it as far as they are missing, the innermost first tried. -/
def makeFoldersAt (tree : FileTree) : List PathText → Except FileError FileTree
  | [] => .ok tree
  | path :: outer =>
      match tree.makeFolder path with
      | .ok changed => .ok changed
      | .error .notFound =>
          match makeFoldersAt tree outer with
          | .error error => .error error
          | .ok surrounded =>
              match surrounded.makeFolder path with
              | .ok changed => .ok changed
              | .error error =>
                  if surrounded.isFolder path.text then .ok surrounded else .error error
      | .error error => if tree.isFolder path.text then .ok tree else .error error

def makeFolders (tree : FileTree) (path : PathText) : Except FileError FileTree :=
  tree.makeFoldersAt path.ancestors

def write (tree : FileTree) (path content : String) : Except FileError FileTree :=
  let written := PathText.ofText path
  let segments := PathText.withoutTrailing (· == "") written.segments
  match pathError? path, segments.getLast? with
  | some error, _ => .error error
  | none, none => .error .isAFolder
  | none, some last =>
      match tree.parentSpot written.start segments with
      | .error error => .error error
      | .ok spot =>
          if isDots last || segments.length < written.segments.length then .error .isAFolder
          else
            match tree.lookUp last spot with
            | .ok next =>
                if tree.isFolderAt next then .error .isAFolder
                else .ok (tree.putIn spot last (.file content.toUTF8))
            | .error .notFound => .ok (tree.putIn spot last (.file content.toUTF8))
            | .error error => .error error

/-! ## Whole trees -/

/-- Adds a file, or an empty folder where there is no content, and the folders around it. -/
def add (tree : FileTree) (path : String) (content : Option ByteArray) : FileTree :=
  let place := (PathText.ofText path).segments.filter fun segment => !PathText.isFiller segment
  let lengths := List.range (place.length - 1)
  let surrounded := lengths.foldl
    (fun tree length => tree.put (place.take (length + 1)) .folder) tree
  match content with
  | some content => surrounded.put place (.file content)
  | none => surrounded.put place .folder

def ofContents (contents : Entries (Option ByteArray)) : FileTree :=
  contents.foldl (fun tree entry => tree.add entry.1 entry.2) empty

def changedNodes (before after : FileTree) : List (Place × FileNode) :=
  after.nodes.filter fun entry => before.node? entry.1 != some entry.2

def placeText (place : Place) : String :=
  Text.joined "/" place

def changes (before after : FileTree) : Entries ByteArray :=
  (changedNodes before after).filterMap fun entry =>
    match entry.2 with
    | .folder => none
    | .file content => some (placeText entry.1, content)

end FileTree

end TreeSyntax
