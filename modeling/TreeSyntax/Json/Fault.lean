import TreeSyntax.Json.Printer
import TreeSyntax.Text.Quoted

/-!
# Faults of JSON texts

Reading a text fails for one of two causes: the text is not JSON, or what it holds is not of the
shape asked for.  A fault also knows where it happened, both in the text and in the value that
was being read.
-/

namespace TreeSyntax.Json

/-! ## Texts that are not JSON -/

inductive Defect where
  | endInValue
  | endInString
  | endInList
  | endInObject
  | valueExpected
  | wordExpected
  | invalidNumber
  | numberOutOfRange
  | controlCharacter
  | invalidEscape
  | loneSurrogate
  | endOfSurrogate
  | keyExpected
  | colonExpected
  | listSeparatorExpected
  | objectSeparatorExpected
  | trailingComma
  | trailingCharacters
  | nestingTooDeep
  deriving DecidableEq, Repr

def Defect.message : Defect → String
  | .endInValue => "EOF while parsing a value"
  | .endInString => "EOF while parsing a string"
  | .endInList => "EOF while parsing a list"
  | .endInObject => "EOF while parsing an object"
  | .valueExpected => "expected value"
  | .wordExpected => "expected ident"
  | .invalidNumber => "invalid number"
  | .numberOutOfRange => "number out of range"
  | .controlCharacter => "control character (\\u0000-\\u001F) found while parsing a string"
  | .invalidEscape => "invalid escape"
  | .loneSurrogate => "lone leading surrogate in hex escape"
  | .endOfSurrogate => "unexpected end of hex escape"
  | .keyExpected => "key must be a string"
  | .colonExpected => "expected `:`"
  | .listSeparatorExpected => "expected `,` or `]`"
  | .objectSeparatorExpected => "expected `,` or `\x7d`"
  | .trailingComma => "trailing comma"
  | .trailingCharacters => "trailing characters"
  | .nestingTooDeep => "recursion limit exceeded"

/-! ## Values of another shape -/

inductive Found where
  | null
  | bool (value : Bool)
  | number (value : Number)
  | string (text : String)
  | sequence
  | map
  deriving DecidableEq, Repr

def Found.describe : Found → String
  | .null => "null"
  | .bool true => "boolean `true`"
  | .bool false => "boolean `false`"
  | .number (.integer value) => "integer `" ++ integerText value ++ "`"
  | .number (.float value) => "floating point `" ++ NumberLayout.json.text value ++ "`"
  | .string text => "string " ++ Text.quoted text
  | .sequence => "sequence"
  | .map => "map"

def found : Json → Found
  | .null => .null
  | .bool value => .bool value
  | .number value => .number value
  | .string text => .string text
  | .array _ => .sequence
  | .object _ => .map

inductive Mismatch where
  | wrongType (found : Found) (expected : String)
  | wrongValue (found : Found) (expected : String)
  | wrongLength (length : Nat) (expected : String)
  | missingField (name : String)
  | repeatedField (name : String)
  | unknownField (name : String) (known : List String)
  | unknownVariant (name : String) (known : List String)
  deriving DecidableEq, Repr

def alternatives (names : List String) : String :=
  "expected one of " ++ String.intercalate ", " (names.map fun name => "`" ++ name ++ "`")

def Mismatch.message : Mismatch → String
  | .wrongType found expected => "invalid type: " ++ found.describe ++ ", expected " ++ expected
  | .wrongValue found expected => "invalid value: " ++ found.describe ++ ", expected " ++ expected
  | .wrongLength length expected => s!"invalid length {length}, expected " ++ expected
  | .missingField name => "missing field `" ++ name ++ "`"
  | .repeatedField name => "duplicate field `" ++ name ++ "`"
  | .unknownField name known => "unknown field `" ++ name ++ "`, " ++ alternatives known
  | .unknownVariant name known => "unknown variant `" ++ name ++ "`, " ++ alternatives known

/-! ## Where a fault happened -/

inductive Step where
  | key (name : String)
  | index (place : Nat)
  | unreadKey
  deriving DecidableEq, Repr

def Step.text : Step → String
  | .key name => name
  | .index place => s!"[{place}]"
  | .unreadKey => "?"

/-- A dot stands before every step but the first and the indices. -/
def stepsText : List Step → String
  | [] => "."
  | step :: steps =>
      step.text ++ String.join (steps.map fun next =>
        match next with
        | .index _ => next.text
        | _ => "." ++ next.text)

/-- A defect happened `ahead` bytes past the start of `rest`, or at the end of the text. -/
inductive Cause where
  | notJson (defect : Defect) (rest : List Char) (ahead : Nat)
  | otherShape (mismatch : Mismatch)
  deriving DecidableEq, Repr

def Cause.message : Cause → String
  | .notJson defect _ _ => defect.message
  | .otherShape mismatch => mismatch.message

structure Fault where
  cause : Cause
  steps : List Step
  deriving DecidableEq, Repr

namespace Fault

def within (step : Step) (fault : Fault) : Fault :=
  { fault with steps := step :: fault.steps }

def ofMismatch (mismatch : Mismatch) : Fault :=
  ⟨.otherShape mismatch, []⟩

/-- The next byte is at fault, or the end of the text. -/
def atNext (defect : Defect) (rest : List Char) : Fault :=
  ⟨.notJson defect rest 1, []⟩

def justBefore (defect : Defect) (rest : List Char) : Fault :=
  ⟨.notJson defect rest 0, []⟩

end Fault

/-! ## Positions -/

def byteCount (characters : List Char) : Nat :=
  characters.foldl (fun count character => count + character.utf8Size) 0

/-- Lines count from one; columns count the bytes since the last line feed. -/
structure Position where
  line : Nat
  column : Nat
  deriving DecidableEq, Repr

def Position.advance (position : Position) : Nat → List Char → Position
  | 0, _ => position
  | _, [] => position
  | bytes + 1, character :: rest =>
      if character = '\n' then Position.advance ⟨position.line + 1, 0⟩ bytes rest
      else
        let size := min character.utf8Size (bytes + 1)
        Position.advance ⟨position.line, position.column + size⟩ (bytes + 1 - size) rest

def positionOf (text rest : List Char) (ahead : Nat) : Position :=
  Position.advance ⟨1, 0⟩ (min (byteCount text - byteCount rest + ahead) (byteCount text)) text

def Defect.located (defect : Defect) (text rest : List Char) (ahead : Nat) : String :=
  let position := positionOf text rest ahead
  defect.message ++ s!" at line {position.line} column {position.column}"

end TreeSyntax.Json
