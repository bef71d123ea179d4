import TreeSyntax.Check.Validate
import TreeSyntax.Files.FileTree

/-!
# Loading from files

Programs, library manifests and fixtures come from files.  A program is parsed as a whole; a
manifest or a fixture is read against its shape, up to the end of its value and no further.  A text
that is not JSON is reported with its line and column, but a wrong shape only with the place in the
value: the line and column that would end its message are left out.
-/

namespace TreeSyntax

/-! ## Errors -/

inductive LoadError where
  | unreadable (path : String) (error : FileError)
  | notJson (path message : String)
  | wrongShape (path : String) (steps : List Json.Step) (cause : Json.Cause)
  | pointerMissed (path pointer : String)
  | badLibrarySpec (spec : String)
  deriving DecidableEq, Repr

namespace LoadError

def kind : LoadError → String
  | .unreadable _ _ => "Read"
  | .notJson _ _ => "Json"
  | .wrongShape _ _ _ => "Shape"
  | .pointerMissed _ _ => "Pointer"
  | .badLibrarySpec _ => "LibrarySpec"

def chain : LoadError → List String
  | .unreadable path error =>
      ["failed to read " ++ path ++ ": " ++ error.message, error.message]
  | .notJson path message =>
      ["failed to parse JSON in " ++ path ++ ": " ++ message, message]
  | .wrongShape path steps cause =>
      [path ++ ": at JSON path " ++ Json.stepsText steps ++ " → " ++ cause.message]
  | .pointerMissed path pointer =>
      ["JSON pointer " ++ Text.quoted pointer ++ " selects nothing in " ++ path]
  | .badLibrarySpec spec =>
      ["library spec " ++ Text.quoted spec ++ " is not of the form NAME=PATH"]

def message (error : LoadError) : String :=
  error.chain.headD ""

end LoadError

abbrev Loaded (α : Type) : Type := Except LoadError α

/-! ## Programs -/

def readFile (files : FileTree) (path : String) : Loaded String :=
  match files.read path with
  | .ok text => .ok text
  | .error error => .error (.unreadable path error)

def causeMessage (text : String) : Json.Cause → String
  | .notJson defect rest ahead => defect.located text.toList rest ahead
  | .otherShape mismatch => mismatch.message

def loadJson (files : FileTree) (path : String) : Loaded Json :=
  match readFile files path with
  | .error error => .error error
  | .ok text =>
      match Json.parse text with
      | .ok value => .ok value
      | .error fault => .error (.notJson path (causeMessage text fault.cause))

def loadProgram (files : FileTree) (path : String) (pointer : Option String) : Loaded Json :=
  match loadJson files path with
  | .error error => .error error
  | .ok value =>
      match pointer with
      | none => .ok value
      | some pointer =>
          match value.pointer? pointer with
          | some part => .ok part
          | none => .error (.pointerMissed path pointer)

/-- Reads the front of a file as a value of a shape. -/
def loadShape {α : Type} (shape : Json.Shape α) (files : FileTree) (path : String) : Loaded α :=
  match readFile files path with
  | .error error => .error error
  | .ok text =>
      match shape.read text.toList with
      | .ok (value, _) => .ok value
      | .error fault => .error (.wrongShape path fault.steps fault.cause)

/-! ## Libraries -/

abbrev Manifest : Type := Entries String

def manifestShape : Json.Shape (Entries String) := (Json.Shape.text "path string").map

def folderOf (path : String) : String :=
  (((PathText.ofText path).parent?).map PathText.text).getD ""

/-- Relative targets lie in the folder of the manifest. -/
def loadManifest (files : FileTree) (path : String) : Loaded Manifest :=
  match loadShape manifestShape files path with
  | .error error => .error error
  | .ok targets =>
      .ok (targets.map fun target => (target.1, PathText.join (folderOf path) target.2))

def splitAtEquals? : List Char → Option (List Char × List Char)
  | [] => none
  | '=' :: rest => some ([], rest)
  | character :: rest => (splitAtEquals? rest).map fun split => (character :: split.1, split.2)

/-- A name and a path, neither empty, with an equals sign between them. -/
def parseLibrarySpec (spec : String) : Loaded (String × String) :=
  match splitAtEquals? spec.toList with
  | some (name@(_ :: _), path@(_ :: _)) => .ok (String.ofList name, String.ofList path)
  | _ => .error (.badLibrarySpec spec)

def loadLibraries (files : FileTree) : Manifest → Loaded Libraries
  | [] => .ok []
  | (name, path) :: manifest =>
      match loadJson files path with
      | .error error => .error error
      | .ok library => (loadLibraries files manifest).map ((name, library) :: ·)

end TreeSyntax
