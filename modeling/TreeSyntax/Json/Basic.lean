import TreeSyntax.Entries
import TreeSyntax.Number.Binary64

/-!
# JSON values

Objects keep their members in the order in which they were written.  A tree as written may repeat
a key; `Json.merged` gives every key the place of its first and the value of its last occurrence,
and `Json.WellFormed` says that no key is repeated anywhere.
-/

namespace TreeSyntax

inductive Number where
  | integer (value : Int)
  | float (value : Binary64)
  deriving DecidableEq, Repr

inductive Json where
  | null
  | bool (value : Bool)
  | number (value : Number)
  | string (text : String)
  | array (items : List Json)
  | object (members : List (String × Json))
  deriving Repr

abbrev Members : Type := Entries Json

instance : Inhabited Json := ⟨.null⟩

namespace Json

/-! ## Views -/

def text? : Json → Option String
  | .string text => some text
  | _ => none

def items? : Json → Option (List Json)
  | .array items => some items
  | _ => none

def members? : Json → Option Members
  | .object members => some members
  | _ => none

def isStructured : Json → Bool
  | .array _ => true
  | .object _ => true
  | _ => false

/-! ## Equality -/

mutual

def same : Json → Json → Bool
  | .null, .null => true
  | .bool value, .bool value' => value == value'
  | .number value, .number value' => value == value'
  | .string text, .string text' => text == text'
  | .array items, .array items' => sameItems items items'
  | .object members, .object members' => sameMembers members members'
  | _, _ => false

def sameItems : List Json → List Json → Bool
  | [], [] => true
  | item :: items, item' :: items' => same item item' && sameItems items items'
  | _, _ => false

def sameMembers : List (String × Json) → List (String × Json) → Bool
  | [], [] => true
  | (key, value) :: members, (key', value') :: members' =>
      key == key' && same value value' && sameMembers members members'
  | _, _ => false

end

mutual

theorem same_iff (value value' : Json) : same value value' = true ↔ value = value' := by
  cases value <;> cases value' <;> simp [same, sameItems_iff, sameMembers_iff]

theorem sameItems_iff (items items' : List Json) :
    sameItems items items' = true ↔ items = items' := by
  match items, items' with
  | [], [] => simp [sameItems]
  | [], _ :: _ => simp [sameItems]
  | _ :: _, [] => simp [sameItems]
  | item :: items, item' :: items' =>
      simp [sameItems, same_iff item item', sameItems_iff items items']

theorem sameMembers_iff (members members' : List (String × Json)) :
    sameMembers members members' = true ↔ members = members' := by
  match members, members' with
  | [], [] => simp [sameMembers]
  | [], _ :: _ => simp [sameMembers]
  | _ :: _, [] => simp [sameMembers]
  | (key, value) :: members, (key', value') :: members' =>
      simp [sameMembers, same_iff value value', sameMembers_iff members members', and_assoc]

end

instance : DecidableEq Json := fun value value' =>
  decidable_of_iff (same value value' = true) (same_iff value value')

/-! ## Trees as written -/

mutual

def merged : Json → Json
  | .array items => .array (mergedItems items)
  | .object members => .object (Entries.merge (mergedMembers members))
  | scalar => scalar

def mergedItems : List Json → List Json
  | [] => []
  | item :: items => merged item :: mergedItems items

def mergedMembers : List (String × Json) → List (String × Json)
  | [] => []
  | (key, value) :: members => (key, merged value) :: mergedMembers members

end

mutual

/-- No object in the tree repeats a key. -/
def WellFormed : Json → Prop
  | .array items => WellFormedItems items
  | .object members => (Entries.names members).Nodup ∧ WellFormedMembers members
  | _ => True

def WellFormedItems : List Json → Prop
  | [] => True
  | item :: items => item.WellFormed ∧ WellFormedItems items

def WellFormedMembers : List (String × Json) → Prop
  | [] => True
  | (_, value) :: members => value.WellFormed ∧ WellFormedMembers members

end

mutual

/-- The greatest number of containers inside one another. -/
def nesting : Json → Nat
  | .array items => nestingOfItems items + 1
  | .object members => nestingOfMembers members + 1
  | _ => 0

def nestingOfItems : List Json → Nat
  | [] => 0
  | item :: items => max item.nesting (nestingOfItems items)

def nestingOfMembers : List (String × Json) → Nat
  | [] => 0
  | (_, value) :: members => max value.nesting (nestingOfMembers members)

end

end Json

end TreeSyntax
