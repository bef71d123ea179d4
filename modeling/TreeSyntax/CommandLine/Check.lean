import TreeSyntax.CommandLine.Listing
import TreeSyntax.CommandLine.Report
import TreeSyntax.CommandLine.Run
import TreeSyntax.Files.Search
import TreeSyntax.Load.Basic
import TreeSyntax.Text.Outline

/-!
# The command line program

A check loads everything before it reports anything: the manifest, the library specs, the
libraries, the input paths and then the inputs.  The first of these that fails ends the run, and
only a run in which nothing failed writes its report.
-/

namespace TreeSyntax.CommandLine

/-- A stage of a run ends with the messages of an error, outermost first. -/
abbrev Stage (α : Type) : Type := Except (List String) α

def Stage.ofLoaded {α : Type} (context : List String) : Loaded α → Stage α
  | .ok value => .ok value
  | .error error => .error (context ++ error.chain)

/-! ## Libraries -/

def baseManifest (files : FileTree) : Option String → Stage Manifest
  | none => .ok []
  | some path =>
      Stage.ofLoaded ["failed to load library manifest " ++ path] (loadManifest files path)

/-- Specs come after the manifest and override it. -/
def addSpecs (manifest : Manifest) : List String → Loaded Manifest
  | [] => .ok manifest
  | spec :: specs =>
      match parseLibrarySpec spec with
      | .error error => .error error
      | .ok (name, path) => addSpecs (manifest.put name path) specs

def fullManifest (files : FileTree) (settings : CheckSettings) : Stage Manifest :=
  match baseManifest files settings.manifest with
  | .error messages => .error messages
  | .ok manifest => Stage.ofLoaded [] (addSpecs manifest settings.librarySpecs)

def librariesOf (files : FileTree) (manifest : Manifest) : Stage Libraries :=
  Stage.ofLoaded ["failed to load libraries"] (loadLibraries files manifest)

/-! ## Inputs -/

def isGlob (argument : String) : Bool :=
  argument.toList.any fun character =>
    character == '*' || character == '?' || character == '[' || character == '\x7b'

def expandInput (files : FileTree) (argument : String) : Stage (List String) :=
  if isGlob argument then
    match Glob.expand files argument with
    | .error error => .error [error.message]
    | .ok [] => .error ["glob pattern matched no files: " ++ argument]
    | .ok paths => .ok paths
  else .ok [argument]

def expandInputs (files : FileTree) : List String → Stage (List String)
  | [] => .ok []
  | argument :: arguments =>
      match expandInput files argument with
      | .error messages => .error messages
      | .ok paths => (expandInputs files arguments).map (paths ++ ·)

def inputPaths (files : FileTree) (arguments : List String) : Stage (List String) :=
  (expandInputs files arguments).mapError ("failed to resolve input file paths" :: ·)

/-! ## Reports -/

def checkFile (files : FileTree) (settings : CheckSettings) (libraries : Libraries)
    (path : String) : Loaded FileReport :=
  match loadProgram files path settings.jsonPointer with
  | .error error => .error error
  | .ok program => .ok ⟨path, validateWith settings.options (some libraries) program⟩

def checkFiles (files : FileTree) (settings : CheckSettings) (libraries : Libraries) :
    List String → Loaded (List FileReport)
  | [] => .ok []
  | path :: paths =>
      match checkFile files settings libraries path with
      | .error error => .error error
      | .ok report => (checkFiles files settings libraries paths).map (report :: ·)

def reportsOf (files : FileTree) (settings : CheckSettings) : Stage (List FileReport) :=
  match fullManifest files settings with
  | .error messages => .error messages
  | .ok manifest =>
      match librariesOf files manifest with
      | .error messages => .error messages
      | .ok libraries =>
          match inputPaths files settings.inputs with
          | .error messages => .error messages
          | .ok paths => Stage.ofLoaded [] (checkFiles files settings libraries paths)

/-! ## Output -/

def makeSurroundings (files : FileTree) (path : String) : Except FileError FileTree :=
  match (PathText.ofText path).parent? with
  | none => .ok files
  | some folder => files.makeFolders folder

def writeOut (files : FileTree) (path content : String) : FileTree × Stage Unit :=
  match makeSurroundings files path with
  | .error error => (files, .error [error.message])
  | .ok surrounded =>
      match surrounded.write path content with
      | .error error => (surrounded, .error ["failed to write " ++ path, error.message])
      | .ok written => (written, .ok ())

def exitCodeOf (reports : List FileReport) : Nat :=
  if reports.all fun report => report.outcome.isValid then Run.succeeded else Run.failed

/-- A report in a file is never coloured and does not end its last line. -/
def output (files : FileTree) (coloured : Bool) (settings : CheckSettings)
    (reports : List FileReport) : Run :=
  match settings.out with
  | none =>
      ⟨exitCodeOf reports, report settings.format coloured reports ++ "\n", "", files⟩
  | some path =>
      match writeOut files path (report settings.format false reports) with
      | (changed, .error messages) => .ofErrors changed messages
      | (changed, .ok ()) => ⟨exitCodeOf reports, "", "", changed⟩

/-! ## The parsed arguments -/

open Text in
def settingsOutline (settings : CheckSettings) : Outline :=
  .record "CheckOut" [
    ("input_settings", .record "InputSettings" [
      ("json_pointer", .ofOption settings.jsonPointer),
      ("input", .ofTexts settings.inputs)]),
    ("library_settings", .record "LibrarySettings" [
      ("library", .ofTexts settings.librarySpecs),
      ("manifest", .ofOption settings.manifest),
      ("check_libraries", .ofBool settings.checkLibraries)]),
    ("max_depth", .ofNat settings.maxDepth),
    ("format", .atom (match settings.format with | .text => "Text" | .json => "Json")),
    ("out", .ofOption settings.out),
    ("no_op", .ofBool settings.noOp)]

open Text in
def invocationOutline (verbosity : Nat) (settings : CheckSettings) : Outline :=
  .record "CommandLineInterface" [
    ("verbose", .ofNat verbosity),
    ("cmd", .wrapped "Check" (settingsOutline settings))]

/-! ## Runs -/

def runCheck (files : FileTree) (coloured : Bool) (settings : CheckSettings) : Run :=
  match reportsOf files settings with
  | .error messages => .ofErrors files messages
  | .ok reports => output files coloured settings reports

def runCommand (files : FileTree) (coloured : Bool) (invocation : Invocation) : Run :=
  match invocation.command with
  | .grammar => ⟨Run.succeeded, grammarListing coloured ++ "\n", "", files⟩
  | .check settings =>
      if settings.noOp then
        ⟨Run.succeeded, "", (invocationOutline invocation.verbosity settings).text ++ "\n", files⟩
      else runCheck files coloured settings

def run (files : FileTree) (coloured : Bool) (arguments : List String) : Run :=
  match parse? arguments with
  | none => ⟨Run.misused, "", "", files⟩
  | some invocation => runCommand files coloured invocation

end TreeSyntax.CommandLine
