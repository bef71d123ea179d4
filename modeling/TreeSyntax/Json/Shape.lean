import TreeSyntax.Json.Skip

/-!
# Values of a known shape

A shape is recognised in two places: in a value that is already there, and in a text, which is
refused at the first thing that does not fit, before the rest of it is looked at.  A text may
repeat a key; a value cannot.
-/

namespace TreeSyntax.Json

structure Shape (α : Type) where
  read : Reader α
  ofValue : Json → Except Mismatch α

def refusal (expected : String) (first : Char) (rest : List Char) : Fault :=
  match openBracket? first with
  | some .list => .ofMismatch (.wrongType .sequence expected)
  | some .map => .ofMismatch (.wrongType .map expected)
  | none =>
      match readScalar first rest with
      | .error fault => fault
      | .ok (value, _) => .ofMismatch (.wrongType (found value) expected)

namespace Shape

/-! ## Any value -/

def any (nesting : Nat) : Shape Json where
  read := (readValue nesting).map merged
  ofValue := .ok

/-! ## Scalars -/

/-- A scalar that `ofValue` recognises; no container is one. -/
def scalar {α : Type} (name : String) (ofValue : Json → Except Mismatch α) : Shape α where
  ofValue := ofValue
  read text :=
    match found : skipBlanks text with
    | [] => .error (.atNext .endInValue [])
    | first :: rest =>
        match openBracket? first with
        | some _ => .error (refusal name first rest)
        | none =>
            match readScalar first rest with
            | .error fault => .error fault
            | .ok (value, later) =>
                match ofValue value with
                | .error mismatch => .error (.ofMismatch mismatch)
                | .ok accepted => .ok (accepted, ⟨later.1, by
                    have := later.2
                    have := length_skipBlanks_le text
                    rw [found] at this
                    omega⟩)

def text (name : String) : Shape String :=
  scalar name fun
    | .string text => .ok text
    | other => .error (.wrongType (found other) name)

def bool : Shape Bool :=
  scalar "a boolean" fun
    | .bool value => .ok value
    | other => .error (.wrongType (found other) "a boolean")

/-- An integer that is not negative; a float is never a count. -/
def count : Shape Nat :=
  scalar "usize" fun
    | .number (.integer value) =>
        if 0 ≤ value then .ok value.toNat
        else .error (.wrongValue (.number (.integer value)) "usize")
    | other => .error (.wrongType (found other) "usize")

/-! ## Shapes made of others -/

def refine {α β : Type} (shape : Shape α) (check : α → Except Mismatch β) : Shape β where
  read text :=
    match shape.read text with
    | .error fault => .error fault
    | .ok (value, rest) =>
        match check value with
        | .error mismatch => .error (.ofMismatch mismatch)
        | .ok checked => .ok (checked, rest)
  ofValue value :=
    match shape.ofValue value with
    | .error mismatch => .error mismatch
    | .ok accepted => check accepted

def orNull {α : Type} (shape : Shape α) : Shape (Option α) where
  read text :=
    match found : skipBlanks text with
    | 'n' :: rest =>
        match readScalar 'n' rest with
        | .error fault => .error fault
        | .ok (_, later) => .ok (none, ⟨later.1, by
            have := later.2
            have := length_skipBlanks_le text
            rw [found] at this
            omega⟩)
    | _ => shape.read.map some text
  ofValue
    | .null => .ok none
    | value => (shape.ofValue value).map some

def list {α : Type} (item : Shape α) : Shape (List α) where
  read text :=
    match found : skipBlanks text with
    | [] => .error (.atNext .endInValue [])
    | '[' :: rest =>
        Reader.carryPast found
          ((readItems (fun read _ => item.read.map (· :: read)) [] 0).map List.reverse rest)
    | first :: rest => .error (refusal "a sequence" first rest)
  ofValue
    | .array items => items.mapM item.ofValue
    | other => .error (.wrongType (found other) "a sequence")

def map {α : Type} (entry : Shape α) : Shape (Entries α) where
  read text :=
    match found : skipBlanks text with
    | [] => .error (.atNext .endInValue [])
    | '\x7b' :: rest =>
        Reader.carryPast found
          (readMembers (fun (entries : Entries α) key =>
            (afterColon key entry.read).map (entries.put key)) [] true rest)
    | first :: rest => .error (refusal "a map" first rest)
  ofValue
    | .object members => members.foldlM (fun (entries : Entries α) member =>
        (entry.ofValue member.2).map (entries.put member.1)) []
    | other => .error (.wrongType (found other) "a map")

end Shape

/-! ## Records -/

/-- A part of a draft: what is there of it, the shape of its values, and how one is filled in. -/
structure Field (σ : Type) where
  name : String
  Value : Type
  view : σ → Option Value
  shape : Shape Value
  fill : Value → σ → σ

def Field.isFilled {σ : Type} (field : Field σ) (state : σ) : Bool :=
  (field.view state).isSome

/-- A record is written as a map with a key for each field, or as an array of the fields in their
order. -/
structure RecordShape (σ α : Type) where
  name : String
  fields : List (Field σ)
  start : σ
  /-- Fields that no key names may be passed over. -/
  allowsUnknown : Bool
  finish : σ → Except Mismatch α
  /-- The record once an array ended after some of the fields. -/
  finishEarly : σ → Except Mismatch α

namespace RecordShape

variable {σ α : Type} (record : RecordShape σ α)

def field? (name : String) : Option (Field σ) :=
  record.fields.find? fun field => field.name == name

def fieldNames : List String :=
  record.fields.map Field.name

/-! ### In a text -/

def readMember (state : σ) (key : String) : Reader σ :=
  match record.field? key with
  | some field =>
      if field.isFilled state then Reader.refuse (.ofMismatch (.repeatedField key))
      else (afterColon key field.shape.read).map fun value => field.fill value state
  | none =>
      if record.allowsUnknown then
        (afterColon key skipValue).map fun _ => state
      else
        Reader.refuse
          ((Fault.ofMismatch (.unknownField key record.fieldNames)).within (.key key))

/-- The closing bracket of an array that has no room for more elements. -/
def readClosing (text : List Char) : Except Fault (Rest text) :=
  match found : skipBlanks text with
  | [] => .error (.atNext .endInList [])
  | ']' :: _ => .ok (.past found)
  | ',' :: rest =>
      match skipBlanks rest with
      | ']' :: later => .error (.atNext .trailingComma (']' :: later))
      | later => .error (.atNext .trailingCharacters later)
  | other => .error (.atNext .trailingCharacters other)

/-- The fields of a record written as an array; the flag tells that it ended before they did. -/
def readFields (fields : List (Field σ)) (state : σ) (index : Nat) : Reader (σ × Bool) :=
  fun text =>
  match fields with
  | [] => (readClosing text).map fun rest => ((state, false), rest)
  | field :: fields =>
      match nextItem index text with
      | .error fault => .error fault
      | .ok (.closed rest) => .ok ((state, true), rest)
      | .ok (.item start) =>
          match field.shape.read start.1 with
          | .error fault => .error (fault.within (.index index))
          | .ok (value, later) =>
              Reader.carry (by have := start.2; have := later.2; omega)
                (readFields fields (field.fill value state) (index + 1) later.1)

def conclude (state : σ × Bool) : Except Mismatch α :=
  if state.2 then record.finishEarly state.1 else record.finish state.1

def read : Reader α := fun text =>
  match found : skipBlanks text with
  | [] => .error (.atNext .endInValue [])
  | '[' :: rest =>
      match readFields record.fields record.start 0 rest with
      | .error fault => .error fault
      | .ok (state, later) =>
          match record.conclude state with
          | .error mismatch => .error (.ofMismatch mismatch)
          | .ok value => .ok (value, ⟨later.1, by
              have := length_lt_of_skipBlanks_eq found; have := later.2; omega⟩)
  | '\x7b' :: rest =>
      match readMembers record.readMember record.start true rest with
      | .error fault => .error fault
      | .ok (state, later) =>
          match record.finish state with
          | .error mismatch => .error (.ofMismatch mismatch)
          | .ok value => .ok (value, ⟨later.1, by
              have := length_lt_of_skipBlanks_eq found; have := later.2; omega⟩)
  | first :: rest => .error (refusal record.name first rest)

/-! ### In a value -/

def takeMember (state : σ) (member : String × Json) : Except Mismatch σ :=
  match record.field? member.1 with
  | some field => (field.shape.ofValue member.2).map fun value => field.fill value state
  | none =>
      if record.allowsUnknown then .ok state
      else .error (.unknownField member.1 record.fieldNames)

def takeFields (fields : List (Field σ)) (state : σ) (items : List Json) :
    Except Mismatch (σ × Bool × List Json) :=
  match fields, items with
  | [], items => .ok (state, false, items)
  | _ :: _, [] => .ok (state, true, [])
  | field :: fields, item :: items =>
      match field.shape.ofValue item with
      | .error mismatch => .error mismatch
      | .ok value => takeFields fields (field.fill value state) items

def ofItems (items : List Json) : Except Mismatch α :=
  match takeFields record.fields record.start items with
  | .error mismatch => .error mismatch
  | .ok (state, endedEarly, rest) =>
      match record.conclude (state, endedEarly) with
      | .error mismatch => .error mismatch
      | .ok value =>
          if rest.isEmpty then .ok value
          else .error (.wrongLength items.length "fewer elements in array")

def ofMembers (members : Members) : Except Mismatch α :=
  match members.foldlM record.takeMember record.start with
  | .error mismatch => .error mismatch
  | .ok state => record.finish state

def ofValue : Json → Except Mismatch α
  | .array items => record.ofItems items
  | .object members => record.ofMembers members
  | other => .error (.wrongType (found other) record.name)

def shape : Shape α :=
  ⟨record.read, record.ofValue⟩

end RecordShape

def Shape.parse {α : Type} (shape : Shape α) (text : String) : Except Fault α :=
  readAll shape.read text.toList

end TreeSyntax.Json
