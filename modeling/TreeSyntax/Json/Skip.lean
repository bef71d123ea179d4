import TreeSyntax.Json.Reader

/-!
# Passing over JSON values

A value that nobody asks for is passed over without being built: containers may nest without
limit, numbers may be of any size, and escapes need not form characters.
-/

namespace TreeSyntax.Json

/-! ## Scalars -/

def Rest.pastDigits {text rest : List Char} {first : Char}
    (start : { start : List Char // start.length ≤ text.length })
    (later : start.1 = first :: rest) : Rest text :=
  ⟨rest.dropWhile isDigit, by
    have := length_dropWhile_le isDigit rest
    have := start.2
    rw [later, List.length_cons] at this
    omega⟩

def skipString : (text : List Char) → Except Fault (Rest text)
  | [] => .error (.justBefore .endInString [])
  | '"' :: rest => .ok (.tail '"' rest)
  | ['\\'] => .error (.justBefore .endInString [])
  | '\\' :: 'u' :: rest =>
      match readHex rest with
      | .error fault => .error fault
      | .ok (_, later) =>
          match skipString later.1 with
          | .error fault => .error fault
          | .ok last => .ok (.after '\\' (.after 'u' (later.onward last)))
  | '\\' :: second :: rest =>
      match simpleEscape? second with
      | none => .error (.atNext .invalidEscape (second :: rest))
      | some _ =>
          match skipString rest with
          | .error fault => .error fault
          | .ok last => .ok (.after '\\' (.after second last))
  | first :: rest =>
      if first.toNat < 0x20 then .error (.justBefore .controlCharacter (first :: rest))
      else
        match skipString rest with
        | .error fault => .error fault
        | .ok last => .ok (.after first last)
  termination_by text => text.length
  decreasing_by
    · have := later.2; simp only [List.length_cons]; omega
    · simp only [List.length_cons]; omega
    · simp only [List.length_cons]; omega

def skipExponent (text : List Char) : Except Fault (Rest text) :=
  let digits := (exponentSign text).2
  match later : digits.1 with
  | [] => .error (.justBefore .invalidNumber [])
  | first :: rest =>
      if isDigit first then .ok (.pastDigits digits later)
      else .error (.atNext .invalidNumber (first :: rest))

def skipExponentPart (text : List Char) (rest : Rest text) : Except Fault (Rest text) :=
  match later : rest.1 with
  | [] => .ok rest
  | first :: digits =>
      if first = 'e' ∨ first = 'E' then
        match skipExponent digits with
        | .error fault => .error fault
        | .ok last => .ok ⟨last.1, by
            have := last.2
            have := rest.2
            rw [later, List.length_cons] at this
            omega⟩
      else .ok rest

def skipNumberTail (text : List Char) (rest : Rest text) : Except Fault (Rest text) :=
  match later : rest.1 with
  | '.' :: fraction =>
      if (fraction.head?.map isDigit).getD false then
        skipExponentPart text ⟨fraction.dropWhile isDigit, by
          have := length_dropWhile_le isDigit fraction
          have := rest.2
          rw [later, List.length_cons] at this
          omega⟩
      else .error (.atNext .invalidNumber fraction)
  | _ => skipExponentPart text rest

def skipMagnitude : (text : List Char) → Except Fault (Rest text)
  | [] => .error (.justBefore .invalidNumber [])
  | '0' :: rest =>
      if (rest.head?.map isDigit).getD false then .error (.atNext .invalidNumber rest)
      else skipNumberTail ('0' :: rest) (.tail '0' rest)
  | first :: rest =>
      if isDigit first then
        skipNumberTail (first :: rest) (.afterDigits first rest)
      else .error (.atNext .invalidNumber (first :: rest))

def skipScalar (first : Char) (rest : List Char) : Except Fault (Rest (first :: rest)) :=
  match first with
  | '"' => (skipString rest).map (.after '"')
  | '-' => (skipMagnitude rest).map (.after '-')
  | first =>
      if isDigit first then skipMagnitude (first :: rest)
      else (readScalar first rest).map Prod.snd

/-! ## Containers -/

inductive Bracket where
  | list
  | map
  deriving DecidableEq, Repr

def Bracket.closing : Bracket → Char
  | .list => ']'
  | .map => '\x7d'

def Bracket.endDefect : Bracket → Defect
  | .list => .endInList
  | .map => .endInObject

def Bracket.separatorDefect : Bracket → Defect
  | .list => .listSeparatorExpected
  | .map => .objectSeparatorExpected

def openBracket? (character : Char) : Option Bracket :=
  match character with
  | '[' => some .list
  | '\x7b' => some .map
  | _ => none

def skipKey (text : List Char) : Except Fault (Rest text) :=
  match found : skipBlanks text with
  | [] => .error (.atNext .endInObject [])
  | '"' :: rest =>
      match skipString rest with
      | .error fault => .error fault
      | .ok later =>
          match colon : skipBlanks later.1 with
          | [] => .error (.atNext .endInObject [])
          | ':' :: last => .ok ⟨last, by
              have := length_lt_of_skipBlanks_eq found
              have := length_lt_of_skipBlanks_eq colon
              have := later.2
              omega⟩
          | other => .error (.atNext .colonExpected other)
  | other => .error (.atNext .keyExpected other)

def skipLead (bracket : Bracket) (text : List Char) :
    Except Fault { rest : List Char // rest.length ≤ text.length } :=
  match bracket with
  | .list => .ok (wholeText text)
  | .map => (skipKey text).map Rest.relax

mutual

/-- A value and all that is left of the containers around it, innermost first. -/
def skipValueWithin (around : List Bracket) (text : List Char) : Except Fault (Rest text) :=
  match found : skipBlanks text with
  | [] => .error (.atNext .endInValue [])
  | first :: rest =>
      have restShorter := length_lt_of_skipBlanks_eq found
      match openBracket? first with
      | none =>
          match skipScalar first rest with
          | .error fault => .error fault
          | .ok later =>
              have laterShorter : later.1.length < text.length := by
                have := later.2
                simp only [List.length_cons] at this
                have := length_skipBlanks_le text
                rw [found, List.length_cons] at this
                omega
              match skipAfterValue around later.1 with
              | .error fault => .error fault
              | .ok last => .ok ⟨last.1, Nat.lt_of_le_of_lt last.2 laterShorter⟩
      | some bracket =>
          match inside : skipBlanks rest with
          | [] => .error (.atNext bracket.endDefect [])
          | next :: beyond =>
              if next = bracket.closing then
                have beyondShorter := length_lt_of_skipBlanks_eq inside
                match skipAfterValue around beyond with
                | .error fault => .error fault
                | .ok last => .ok ⟨last.1, by have := last.2; omega⟩
              else
                match skipLead bracket rest with
                | .error fault => .error fault
                | .ok lead =>
                    have leadShorter := lead.2
                    match skipValueWithin (bracket :: around) lead.1 with
                    | .error fault => .error fault
                    | .ok last => .ok ⟨last.1, by have := last.2; omega⟩
  termination_by text.length

def skipAfterValue (around : List Bracket) (text : List Char) :
    Except Fault { rest : List Char // rest.length ≤ text.length } :=
  match around with
  | [] => .ok (wholeText text)
  | bracket :: outer =>
      match found : skipBlanks text with
      | [] => .error (.atNext bracket.endDefect [])
      | first :: rest =>
          have restShorter := length_lt_of_skipBlanks_eq found
          if first = bracket.closing then
            match skipAfterValue outer rest with
            | .error fault => .error fault
            | .ok last => .ok ⟨last.1, by have := last.2; omega⟩
          else if first = ',' then
            match skipLead bracket rest with
            | .error fault => .error fault
            | .ok lead =>
                have leadShorter := lead.2
                match skipValueWithin (bracket :: outer) lead.1 with
                | .error fault => .error fault
                | .ok last => .ok ⟨last.1, by have := last.2; omega⟩
          else .error (.atNext bracket.separatorDefect (first :: rest))
  termination_by text.length

end

def skipValue : Reader Unit := fun text =>
  (skipValueWithin [] text).map fun rest => ((), rest)

end TreeSyntax.Json
