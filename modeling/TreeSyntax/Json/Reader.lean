import TreeSyntax.Json.Fault

/-!
# Reading JSON texts

A reader takes a part off the front of a text and hands back what is left, which is always
shorter; this is why every loop below ends.  Arrays and objects are read by folds that are told
what to do with each element and each member, so that a value of known shape can be refused at
the first element that does not fit.
-/

namespace TreeSyntax.Json

/-- What is left of a text once a part of it was read. -/
abbrev Rest (text : List Char) : Type :=
  { rest : List Char // rest.length < text.length }

abbrev Reader (α : Type) : Type :=
  (text : List Char) → Except Fault (α × Rest text)

namespace Reader

def carry {α : Type} {text later : List Char} (shorter : later.length ≤ text.length) :
    Except Fault (α × Rest later) → Except Fault (α × Rest text)
  | .ok (value, rest) => .ok (value, ⟨rest.1, Nat.lt_of_lt_of_le rest.2 shorter⟩)
  | .error fault => .error fault

def map {α β : Type} (convert : α → β) (reader : Reader α) : Reader β := fun text =>
  match reader text with
  | .ok (value, rest) => .ok (convert value, rest)
  | .error fault => .error fault

def within {α : Type} (step : Step) (reader : Reader α) : Reader α := fun text =>
  (reader text).mapError (·.within step)

def refuse {α : Type} (fault : Fault) : Reader α := fun _ => .error fault

end Reader

namespace Rest

variable {text : List Char}

def tail (first : Char) (rest : List Char) : Rest (first :: rest) :=
  ⟨rest, Nat.lt_succ_self _⟩

def after (first : Char) (rest : Rest text) : Rest (first :: text) :=
  ⟨rest.1, Nat.lt_succ_of_lt rest.2⟩

def onward (rest : Rest text) (last : Rest rest.1) : Rest text :=
  ⟨last.1, Nat.lt_trans last.2 rest.2⟩

end Rest

def Rest.relax {text : List Char} (rest : Rest text) :
    { rest : List Char // rest.length ≤ text.length } :=
  ⟨rest.1, Nat.le_of_lt rest.2⟩

def wholeText (text : List Char) : { rest : List Char // rest.length ≤ text.length } :=
  ⟨text, Nat.le_refl _⟩

/-! ## Blanks -/

def isBlank (character : Char) : Bool :=
  character == ' ' || character == '\n' || character == '\t' || character == '\r'

def skipBlanks (text : List Char) : List Char :=
  text.dropWhile isBlank

theorem length_dropWhile_le (keep : Char → Bool) (text : List Char) :
    (text.dropWhile keep).length ≤ text.length :=
  (List.dropWhile_suffix keep).length_le

theorem length_skipBlanks_le (text : List Char) : (skipBlanks text).length ≤ text.length :=
  length_dropWhile_le isBlank text

theorem length_lt_of_skipBlanks_eq {text rest : List Char} {first : Char}
    (found : skipBlanks text = first :: rest) : rest.length < text.length := by
  have shorter := length_skipBlanks_le text
  rw [found, List.length_cons] at shorter
  omega

def Rest.past {text rest : List Char} {first : Char} (found : skipBlanks text = first :: rest) :
    Rest text :=
  ⟨rest, length_lt_of_skipBlanks_eq found⟩

/-- Reads on after blanks and the first character that is none. -/
def Reader.carryPast {α : Type} {text rest : List Char} {first : Char}
    (found : skipBlanks text = first :: rest) (read : Except Fault (α × Rest rest)) :
    Except Fault (α × Rest text) :=
  Reader.carry (Nat.le_of_lt (length_lt_of_skipBlanks_eq found)) read

/-! ## Strings -/

def hexValue? (character : Char) : Option Nat :=
  if '0' ≤ character ∧ character ≤ '9' then some (character.toNat - '0'.toNat)
  else if 'a' ≤ character ∧ character ≤ 'f' then some (character.toNat - 'a'.toNat + 10)
  else if 'A' ≤ character ∧ character ≤ 'F' then some (character.toNat - 'A'.toNat + 10)
  else none

def hexNumber? (digits : List Char) : Option Nat :=
  digits.foldlM (fun value digit => (hexValue? digit).map (16 * value + ·)) 0

/-- Four bytes are taken whether or not they are digits. -/
def hexFault (text : List Char) : Fault :=
  if byteCount text < 4 then .justBefore .endInString []
  else ⟨.notJson .invalidEscape text 4, []⟩

def readHex : Reader Nat
  | a :: b :: c :: d :: rest =>
      match hexNumber? [a, b, c, d] with
      | some value => .ok (value, .after a (.after b (.after c (.tail d rest))))
      | none => .error (hexFault (a :: b :: c :: d :: rest))
  | text => .error (hexFault text)

def isHighSurrogate (code : Nat) : Bool := 0xD800 ≤ code && code ≤ 0xDBFF

def isLowSurrogate (code : Nat) : Bool := 0xDC00 ≤ code && code ≤ 0xDFFF

def surrogatePair (high low : Nat) : Char :=
  Char.ofNat ((high - 0xD800) * 0x400 + (low - 0xDC00) + 0x10000)

def readLowSurrogate (high : Nat) : Reader Char
  | '\\' :: 'u' :: rest =>
      match readHex rest with
      | .error fault => .error fault
      | .ok (low, last) =>
          if isLowSurrogate low then
            .ok (surrogatePair high low, .after '\\' (.after 'u' last))
          else .error (.justBefore .loneSurrogate last.1)
  | [] => .error (.justBefore .endInString [])
  | ['\\'] => .error (.justBefore .endInString [])
  | '\\' :: rest => .error (.atNext .endOfSurrogate rest)
  | text => .error (.atNext .endOfSurrogate text)

def readUnicodeEscape : Reader Char := fun text =>
  match readHex text with
  | .error fault => .error fault
  | .ok (code, rest) =>
      if isLowSurrogate code then .error (.justBefore .loneSurrogate rest.1)
      else if isHighSurrogate code then
        Reader.carry (Nat.le_of_lt rest.2) (readLowSurrogate code rest.1)
      else .ok (Char.ofNat code, rest)

def simpleEscape? (character : Char) : Option Char :=
  match character with
  | '"' => some '"'
  | '\\' => some '\\'
  | '/' => some '/'
  | 'b' => some '\x08'
  | 'f' => some '\x0c'
  | 'n' => some '\n'
  | 'r' => some '\r'
  | 't' => some '\t'
  | _ => none

def readEscape : Reader Char
  | [] => .error (.justBefore .endInString [])
  | 'u' :: rest =>
      Reader.carry (by simp only [List.length_cons]; omega) (readUnicodeEscape rest)
  | first :: rest =>
      match simpleEscape? first with
      | some character => .ok (character, .tail first rest)
      | none => .error (.atNext .invalidEscape (first :: rest))

/-- The rest of a string and its closing quote; `read` holds what was read of it, last character
first. -/
def readStringFrom (read : List Char) : Reader String
  | [] => .error (.justBefore .endInString [])
  | '"' :: rest => .ok (String.ofList read.reverse, .tail '"' rest)
  | '\\' :: rest =>
      match readEscape rest with
      | .error fault => .error fault
      | .ok (character, later) =>
          Reader.carry (by have := later.2; simp only [List.length_cons]; omega)
            (readStringFrom (character :: read) later.1)
  | first :: rest =>
      if first.toNat < 0x20 then .error (.atNext .controlCharacter (first :: rest))
      else Reader.carry (by simp only [List.length_cons]; omega)
        (readStringFrom (first :: read) rest)
  termination_by text => text.length
  decreasing_by
    · have := later.2; simp only [List.length_cons]; omega
    · simp only [List.length_cons]; omega

def readString : Reader String :=
  readStringFrom []

/-! ## Numbers -/

def isDigit (character : Char) : Bool := '0' ≤ character && character ≤ '9'

def digitValue (character : Char) : Nat := character.toNat - '0'.toNat

def significandBound : Nat := UInt64.size

/-- Appends digits to a significand while it fits; the digits that no longer do are left over. -/
def absorb (significand : Nat) : List Char → Nat × List Char
  | [] => (significand, [])
  | digit :: digits =>
      let longer := 10 * significand + digitValue digit
      if longer < significandBound then absorb longer digits else (significand, digit :: digits)

def largestExponent : Nat := Nat.pow 2 31 - 1

/-- Appends digits to an exponent.  The flag tells that it grew too large, at the digit that was
taken last. -/
def readExponentDigits (exponent : Nat) :
    (text : List Char) → (Nat × Bool) × { rest : List Char // rest.length ≤ text.length }
  | [] => ((exponent, false), wholeText [])
  | first :: rest =>
      if isDigit first then
        let longer := 10 * exponent + digitValue first
        if largestExponent < longer then
          ((exponent, true), ⟨rest, by simp only [List.length_cons]; omega⟩)
        else
          let read := readExponentDigits longer rest
          (read.1, ⟨read.2.1, by have := read.2.2; simp only [List.length_cons]; omega⟩)
      else ((exponent, false), wholeText (first :: rest))

def exponentSign : (text : List Char) → Bool × { rest : List Char // rest.length ≤ text.length }
  | '-' :: rest => (true, ⟨rest, by simp only [List.length_cons]; omega⟩)
  | '+' :: rest => (false, ⟨rest, by simp only [List.length_cons]; omega⟩)
  | text => (false, wholeText text)

def floatOf (negative : Bool) (significand : Nat) (exponent : Int) (text : List Char)
    (rest : Rest text) : Except Fault (Number × Rest text) :=
  match Binary64.ofDecimal? negative significand exponent with
  | some value => .ok (.float value, rest)
  | none => .error (.justBefore .numberOutOfRange rest.1)

/-- What follows the letter of an exponent.  An exponent too large to look at gives zero when the
significand is zero or the exponent is negative. -/
def readExponent (negative : Bool) (significand : Nat) (start : Int) : Reader Number := fun text =>
  let sign := exponentSign text
  match later : sign.2.1 with
  | [] => .error (.justBefore .endInValue [])
  | first :: digits =>
      if isDigit first then
        let read := readExponentDigits (digitValue first) digits
        have shorter : read.2.1.length < text.length := by
          have := read.2.2; have := sign.2.2; rw [later, List.length_cons] at this; omega
        if read.1.2 then
          if significand ≠ 0 ∧ sign.1 = false then
            .error (.justBefore .numberOutOfRange read.2.1)
          else
            .ok (.float ⟨negative, 0⟩, ⟨read.2.1.dropWhile isDigit,
              Nat.lt_of_le_of_lt (length_dropWhile_le isDigit read.2.1) shorter⟩)
        else
          let exponent : Int := read.1.1
          floatOf negative significand (if sign.1 then start - exponent else start + exponent)
            text ⟨read.2.1, shorter⟩
      else .error (.atNext .invalidNumber (first :: digits))

def readExponentPart (negative : Bool) (significand : Nat) (start : Int) (text : List Char)
    (rest : Rest text) : Except Fault (Number × Rest text) :=
  match later : rest.1 with
  | 'e' :: digits =>
      Reader.carry (by have := rest.2; rw [later, List.length_cons] at this; omega)
        (readExponent negative significand start digits)
  | 'E' :: digits =>
      Reader.carry (by have := rest.2; rw [later, List.length_cons] at this; omega)
        (readExponent negative significand start digits)
  | _ => floatOf negative significand start text rest

def Rest.afterDigits (first : Char) (rest : List Char) : Rest (first :: rest) :=
  ⟨rest.dropWhile isDigit, Nat.lt_succ_of_le (length_dropWhile_le isDigit rest)⟩

def readFraction (negative : Bool) (significand : Nat) (start : Int) : Reader Number := fun text =>
  match text with
  | [] => .error (.atNext .endInValue [])
  | first :: rest =>
      if isDigit first then
        let digits := first :: rest.takeWhile isDigit
        let absorbed := absorb significand digits
        readExponentPart negative absorbed.1 (start - (digits.length - absorbed.2.length : Nat))
          (first :: rest) (.afterDigits first rest)
      else .error (.atNext .invalidNumber (first :: rest))

/-- Integers from the least signed to the greatest unsigned 64-bit number; the negative zero is
not one of them. -/
def wholeNumber (negative : Bool) (significand : Nat) : Number :=
  if !negative then .integer significand
  else if significand = 0 ∨ Nat.pow 2 63 < significand then
    .float ⟨true, Binary64.nearestRank significand 1⟩
  else .integer (-(significand : Int))

/-- What follows the integer digits of a number, of which `dropped` did not fit. -/
def readNumberTail (negative : Bool) (significand dropped : Nat) (text : List Char)
    (rest : Rest text) : Except Fault (Number × Rest text) :=
  match later : rest.1 with
  | '.' :: fraction =>
      Reader.carry (by have := rest.2; rw [later, List.length_cons] at this; omega)
        (readFraction negative significand dropped fraction)
  | 'e' :: _ => readExponentPart negative significand dropped text rest
  | 'E' :: _ => readExponentPart negative significand dropped text rest
  | _ =>
      if dropped = 0 then .ok (wholeNumber negative significand, rest)
      else floatOf negative significand dropped text rest

def readMagnitude (negative : Bool) : Reader Number
  | [] => .error (.justBefore .endInValue [])
  | '0' :: rest =>
      if (rest.head?.map isDigit).getD false then .error (.atNext .invalidNumber rest)
      else readNumberTail negative 0 0 ('0' :: rest) (.tail '0' rest)
  | first :: rest =>
      if isDigit first then
        let absorbed := absorb 0 (first :: rest.takeWhile isDigit)
        readNumberTail negative absorbed.1 absorbed.2.length (first :: rest)
          (.afterDigits first rest)
      else .error (.atNext .invalidNumber (first :: rest))

/-! ## Scalars -/

def readWord (letters : List Char) :
    (text : List Char) → Except Fault { rest : List Char // rest.length ≤ text.length } :=
  match letters with
  | [] => fun text => .ok (wholeText text)
  | letter :: letters => fun text =>
      match text with
      | [] => .error (.justBefore .endInValue [])
      | first :: rest =>
          if first = letter then
            match readWord letters rest with
            | .ok later =>
                .ok ⟨later.1, by have := later.2; simp only [List.length_cons]; omega⟩
            | .error fault => .error fault
          else .error (.atNext .wordExpected (first :: rest))

def readWordAs (letters : List Char) (value : Json) (first : Char) (rest : List Char) :
    Except Fault (Json × Rest (first :: rest)) :=
  match readWord letters rest with
  | .ok later =>
      .ok (value, ⟨later.1, by have := later.2; simp only [List.length_cons]; omega⟩)
  | .error fault => .error fault

def readScalar (first : Char) (rest : List Char) : Except Fault (Json × Rest (first :: rest)) :=
  match first with
  | 'n' => readWordAs ['u', 'l', 'l'] .null 'n' rest
  | 't' => readWordAs ['r', 'u', 'e'] (.bool true) 't' rest
  | 'f' => readWordAs ['a', 'l', 's', 'e'] (.bool false) 'f' rest
  | '"' =>
      Reader.carry (by simp only [List.length_cons]; omega) (readString.map Json.string rest)
  | '-' =>
      Reader.carry (by simp only [List.length_cons]; omega)
        ((readMagnitude true).map Json.number rest)
  | first =>
      if isDigit first then (readMagnitude false).map Json.number (first :: rest)
      else .error (.atNext .valueExpected (first :: rest))

/-! ## Containers -/

inductive NextItem (text : List Char) where
  | closed (rest : Rest text)
  | item (start : { start : List Char // start.length ≤ text.length })

def nextItem (index : Nat) (text : List Char) : Except Fault (NextItem text) :=
  match found : skipBlanks text with
  | [] => .error (.atNext .endInList [])
  | ']' :: _ => .ok (.closed (.past found))
  | first :: rest =>
      if index = 0 then .ok (.item (wholeText text))
      else if first = ',' then
        match skipBlanks rest with
        | [] => .error (.atNext .endInValue [])
        | ']' :: later => .error (.atNext .trailingComma (']' :: later))
        | _ => .ok (.item ⟨rest, Nat.le_of_lt (length_lt_of_skipBlanks_eq found)⟩)
      else .error (.atNext .listSeparatorExpected (first :: rest))

/-- The elements of an array and its closing bracket, after the first `index` elements.  Faults
between the elements are faults of the array. -/
def readItems {σ : Type} (item : σ → Nat → Reader σ) (state : σ) (index : Nat) : Reader σ :=
  fun text =>
  match nextItem index text with
  | .error fault => .error fault
  | .ok (.closed rest) => .ok (state, rest)
  | .ok (.item start) =>
      match item state index start.1 with
      | .error fault => .error (fault.within (.index index))
      | .ok (next, later) =>
          Reader.carry (by have := start.2; have := later.2; omega)
            (readItems item next (index + 1) later.1)
  termination_by text => text.length
  decreasing_by have := start.2; have := later.2; omega

/-- The key of the next member up to its closing quote, or `none` after the closing brace. -/
def readKey? (isFirst : Bool) (text : List Char) :
    Except Fault (Option String × Rest text) :=
  match found : skipBlanks text with
  | [] => .error (.atNext .endInObject [])
  | '\x7d' :: _ => .ok (none, .past found)
  | '"' :: rest =>
      if isFirst then
        Reader.carryPast found (readString.map some rest)
      else .error (.atNext .objectSeparatorExpected ('"' :: rest))
  | first :: rest =>
      if isFirst then .error (.atNext .keyExpected (first :: rest))
      else if first = ',' then
        match next : skipBlanks rest with
        | [] => .error (.atNext .endInValue [])
        | '\x7d' :: later => .error (.atNext .trailingComma ('\x7d' :: later))
        | '"' :: later =>
            Reader.carry (by
              have := length_lt_of_skipBlanks_eq found
              have := length_lt_of_skipBlanks_eq next
              omega) (readString.map some later)
        | other => .error (.atNext .keyExpected other)
      else .error (.atNext .objectSeparatorExpected (first :: rest))

def readMembers {σ : Type} (member : σ → String → Reader σ) (state : σ) (isFirst : Bool) :
    Reader σ := fun text =>
  match readKey? isFirst text with
  | .error fault => .error (fault.within .unreadKey)
  | .ok (none, rest) => .ok (state, rest)
  | .ok (some key, rest) =>
      match member state key rest.1 with
      | .error fault => .error fault
      | .ok (next, later) =>
          Reader.carry (by have := rest.2; have := later.2; omega)
            (readMembers member next false later.1)
  termination_by text => text.length
  decreasing_by have := rest.2; have := later.2; omega

/-- A colon and the value of a member.  Without its colon the fault is one of the object. -/
def afterColon {α : Type} (key : String) (reader : Reader α) : Reader α := fun text =>
  match found : skipBlanks text with
  | [] => .error (.atNext .endInObject [])
  | ':' :: rest =>
      Reader.carryPast found (reader.within (.key key) rest)
  | other => .error (.atNext .colonExpected other)

/-! ## Values -/

/-- The number of containers that a text may open inside one another. -/
def nestingLimit : Nat := 127

/-- A value as written, with at most `nesting` containers inside one another. -/
def readValue : Nat → Reader Json
  | nesting, text =>
      match found : skipBlanks text with
      | [] => .error (.atNext .endInValue [])
      | '[' :: rest =>
          match nesting with
          | 0 => .error (.atNext .nestingTooDeep ('[' :: rest))
          | nesting + 1 =>
              Reader.carryPast found
                ((readItems (fun items _ => (readValue nesting).map (· :: items)) [] 0).map
                  (fun items => Json.array items.reverse) rest)
      | '\x7b' :: rest =>
          match nesting with
          | 0 => .error (.atNext .nestingTooDeep ('\x7b' :: rest))
          | nesting + 1 =>
              Reader.carryPast found
                ((readMembers (fun members key =>
                    (afterColon key (readValue nesting)).map
                      fun value => (key, value) :: members) [] true).map
                  (fun members => Json.object members.reverse) rest)
      | first :: rest =>
          Reader.carry (by
            have := length_skipBlanks_le text
            rw [found] at this
            exact this) (readScalar first rest)

def readEnd (rest : List Char) : Except Fault Unit :=
  match skipBlanks rest with
  | [] => .ok ()
  | other => .error (.atNext .trailingCharacters other)

def readAll {α : Type} (reader : Reader α) (text : List Char) : Except Fault α :=
  match reader text with
  | .error fault => .error fault
  | .ok (value, rest) => (readEnd rest.1).map fun _ => value

def parseWritten (nesting : Nat) (text : String) : Except Fault Json :=
  readAll (readValue nesting) text.toList

def parse (text : String) : Except Fault Json :=
  (parseWritten nestingLimit text).map merged

end TreeSyntax.Json
