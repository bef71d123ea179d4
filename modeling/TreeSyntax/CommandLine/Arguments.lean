import TreeSyntax.Check.Validate
import TreeSyntax.Text.Unsigned

/-!
# Command line arguments

Arguments are scanned into occurrences of options, each with the values given to it, and the
occurrences are then checked against what a command allows.  There are no positional arguments
besides the command itself.  Help texts are left out, so an argument that asks for help is one that
is not known.
-/

namespace TreeSyntax.CommandLine

/-! ## Options -/

inductive OptionName where
  | verbose
  | jsonPointer
  | input
  | library
  | libraries
  | checkLibraries
  | maxDepth
  | format
  | out
  | noOp
  deriving DecidableEq, Repr

inductive Arity where
  | none
  | one
  | oneOrMore
  deriving DecidableEq, Repr

namespace OptionName

def ofLong? (name : String) : Option OptionName :=
  match name with
  | "verbose" => some .verbose
  | "json-pointer" => some .jsonPointer
  | "input" => some .input
  | "library" => some .library
  | "libraries" => some .libraries
  | "check-libraries" => some .checkLibraries
  | "max-depth" => some .maxDepth
  | "format" => some .format
  | "out" => some .out
  | "no-op" => some .noOp
  | _ => none

def ofShort? (letter : Char) : Option OptionName :=
  match letter with
  | 'v' => some .verbose
  | 'i' => some .input
  | 'o' => some .out
  | _ => none

def arity : OptionName → Arity
  | .verbose => .none
  | .checkLibraries => .none
  | .noOp => .none
  | .input => .oneOrMore
  | _ => .one

def mayRepeat : OptionName → Bool
  | .verbose => true
  | .input => true
  | .library => true
  | _ => false

end OptionName

/-! ## Scanning -/

structure Occurrence where
  option : OptionName
  values : List String
  deriving DecidableEq, Repr

/-- A lone dash is a value, and so is everything that starts with another character. -/
def isValue (argument : String) : Bool :=
  argument = "-" || argument.toList.head? != some '-'

def takeValues (option : OptionName) (arguments : List String) : List String :=
  match option.arity with
  | .none => []
  | .one => (arguments.take 1).takeWhile isValue
  | .oneOrMore => arguments.takeWhile isValue

def occurrence? (option : OptionName) (attached : Option String) (arguments : List String) :
    Option (Occurrence × Nat) :=
  match option.arity, attached with
  | .none, some _ => none
  | .none, none => some (⟨option, []⟩, 0)
  | _, some value => some (⟨option, [value]⟩, 0)
  | _, none =>
      match takeValues option arguments with
      | [] => none
      | values => some (⟨option, values⟩, values.length)

def splitAttached (text : List Char) : String × Option String :=
  match text.dropWhile (· != '=') with
  | [] => (String.ofList text, none)
  | _ :: value => (String.ofList (text.takeWhile (· != '=')), some (String.ofList value))

def attachedToLetter? : List Char → Option String
  | [] => none
  | '=' :: value => some (String.ofList value)
  | value => some (String.ofList value)

/-- The options of an argument of single letters.  The first one that takes values takes the rest
of the argument, or else the next arguments. -/
def cluster? (allowed : OptionName → Bool) (arguments : List String) :
    List Char → Option (List Occurrence × Nat)
  | [] => some ([], 0)
  | letter :: letters =>
      match (OptionName.ofShort? letter).filter allowed with
      | none => none
      | some option =>
          if option.arity = .none then
            (cluster? allowed arguments letters).map fun scanned =>
              (⟨option, []⟩ :: scanned.1, scanned.2)
          else
            (occurrence? option (attachedToLetter? letters) arguments).map fun scanned =>
              ([scanned.1], scanned.2)

def scanArgument? (allowed : OptionName → Bool) (argument : List Char) (arguments : List String) :
    Option (List Occurrence × Nat) :=
  match argument with
  | '-' :: '-' :: long =>
      let split := splitAttached long
      match (OptionName.ofLong? split.1).filter allowed with
      | none => none
      | some option =>
          (occurrence? option split.2 arguments).map fun scanned => ([scanned.1], scanned.2)
  | '-' :: letter :: letters => cluster? allowed arguments (letter :: letters)
  | _ => none

/-- The occurrences in all arguments; `none` if one of them is not understood.  Two dashes end the
options, and nothing may follow. -/
def scan? (allowed : OptionName → Bool) : List String → Option (List Occurrence)
  | [] => some []
  | "--" :: rest => if rest.isEmpty then some [] else none
  | argument :: rest =>
      match scanArgument? allowed argument.toList rest with
      | none => none
      | some (occurrences, used) => (scan? allowed (rest.drop used)).map (occurrences ++ ·)
  termination_by arguments => arguments.length
  decreasing_by simp only [List.length_drop, List.length_cons]; omega

/-! ## Invocations -/

inductive ReportFormat where
  | text
  | json
  deriving DecidableEq, Repr

structure CheckSettings where
  jsonPointer : Option String
  inputs : List String
  librarySpecs : List String
  manifest : Option String
  checkLibraries : Bool
  maxDepth : Nat
  format : ReportFormat
  out : Option String
  noOp : Bool
  deriving DecidableEq, Repr

def CheckSettings.options (settings : CheckSettings) : Options :=
  ⟨settings.maxDepth, settings.checkLibraries⟩

inductive Command where
  | check (settings : CheckSettings)
  | grammar
  deriving DecidableEq, Repr

structure Invocation where
  verbosity : Nat
  command : Command
  deriving DecidableEq, Repr

/-! ## From occurrences to settings -/

def countOf (option : OptionName) (occurrences : List Occurrence) : Nat :=
  (occurrences.filter (·.option = option)).length

def valuesOf (option : OptionName) (occurrences : List Occurrence) : List String :=
  (occurrences.filter (·.option = option)).flatMap Occurrence.values

def repeatsAllowed (occurrences : List Occurrence) : Bool :=
  occurrences.all fun occurrence =>
    occurrence.option.mayRepeat || countOf occurrence.option occurrences ≤ 1

def valueOr? {α : Type} (missing : α) (read : String → Option α) (option : OptionName)
    (occurrences : List Occurrence) : Option α :=
  match valuesOf option occurrences with
  | [] => some missing
  | value :: _ => read value

def readText (text : String) : Option (Option String) := some (some text)

/-- A path is never empty. -/
def readPath (text : String) : Option (Option String) :=
  if text = "" then none else some (some text)

def readFormat : String → Option ReportFormat
  | "text" => some .text
  | "json" => some .json
  | _ => none

def checkSettings? (occurrences : List Occurrence) : Option CheckSettings := do
  guard (repeatsAllowed occurrences)
  let inputs := valuesOf .input occurrences
  guard (!inputs.isEmpty)
  let jsonPointer ← valueOr? none readText .jsonPointer occurrences
  let manifest ← valueOr? none readPath .libraries occurrences
  let maxDepth ← valueOr? Options.default.maxDepth Text.unsigned? .maxDepth occurrences
  let format ← valueOr? .text readFormat .format occurrences
  let out ← valueOr? none readPath .out occurrences
  return {
    jsonPointer, inputs, manifest, maxDepth, format, out
    librarySpecs := valuesOf .library occurrences
    checkLibraries := countOf .checkLibraries occurrences != 0
    noOp := countOf .noOp occurrences != 0 }

def command? (name : String) (occurrences : List Occurrence) : Option Command :=
  match name with
  | "check" => (checkSettings? occurrences).map .check
  | "grammar" => some .grammar
  | _ => none

def allowedIn (name : String) (option : OptionName) : Bool :=
  option = .verbose || name = "check"

def greatestVerbosity : Nat := 255

/-- Of the verbosity options before and after the command, those after it count if there are any. -/
def verbosity (before after : List Occurrence) : Nat :=
  let inner := countOf .verbose after
  min greatestVerbosity (if inner = 0 then countOf .verbose before else inner)

/-- The command is the first argument that is no option. -/
def parseFrom? (before : List Occurrence) : List String → Option Invocation
  | [] => none
  | argument :: rest =>
      if isValue argument then do
        let after ← scan? (allowedIn argument) rest
        let command ← command? argument after
        return ⟨verbosity before after, command⟩
      else
        match scanArgument? (allowedIn "") argument.toList rest with
        | none => none
        | some (occurrences, _) => parseFrom? (before ++ occurrences) rest

def parse? (arguments : List String) : Option Invocation :=
  parseFrom? [] arguments

end TreeSyntax.CommandLine
