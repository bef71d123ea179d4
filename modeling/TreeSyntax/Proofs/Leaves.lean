import TreeSyntax.Proofs.Primitive

/-!
# The leaves of an array

The text of an array does not show how its elements are grouped.  It is made of the texts of its
leaves from left to right, with a comma between any two, and so it tells how many there are unless
one of them holds a comma itself.
-/

namespace TreeSyntax

/-! ## Joined groups -/

namespace Text

/-- Groups that are joined one by one and then with each other are joined as one list. -/
theorem joined_flatten (separator : String) {groups : List (List String)}
    (h : ∀ group ∈ groups, group ≠ []) :
    joined separator (groups.map (joined separator)) = joined separator groups.flatten := by
  induction groups with
  | nil => rfl
  | cons group groups ih =>
      obtain ⟨hgroup, hgroups⟩ := List.forall_mem_cons.1 h
      cases groups with
      | nil => simp [joined]
      | cons next groups =>
          -- Something is joined behind the first group, for no group is empty.
          have hnext : (next :: groups).flatten ≠ [] := by
            simpa using fun hnil => absurd hnil (hgroups next List.mem_cons_self)
          rw [List.flatten_cons, joined_append separator hgroup hnext, ← ih hgroups]
          rfl

theorem count_joined {separator : Char} {pieces : List String} (hne : pieces ≠ [])
    (h : ∀ piece ∈ pieces, separator ∉ piece.toList) :
    (joined (String.singleton separator) pieces).toList.count separator + 1 = pieces.length := by
  induction pieces with
  | nil => exact absurd rfl hne
  | cons piece pieces ih =>
      obtain ⟨hpiece, hpieces⟩ := List.forall_mem_cons.1 h
      cases pieces with
      | nil => simpa [joined] using List.count_eq_zero.2 hpiece
      | cons next pieces =>
          have hcount := ih (List.cons_ne_nil next pieces) hpieces
          simp only [joined_cons_cons, String.toList_append, String.toList_singleton,
            List.count_append, List.count_eq_zero.2 hpiece, List.count_singleton_self,
            List.length_cons] at hcount ⊢
          omega

end Text

namespace Json

/-! ## Texts of elements -/

def elementText : Json → String
  | .null => ""
  | value => value.plainText

theorem itemTexts_eq_map (items : List Json) : itemTexts items = items.map elementText := by
  induction items with
  | nil => rfl
  | cons item items ih =>
      rw [List.map_cons, ← ih]
      cases item <;> rfl

theorem plainText_array (items : List Json) :
    (Json.array items).plainText = Text.joined "," (items.map elementText) := by
  rw [plainText, itemTexts_eq_map]

theorem elementText_array (items : List Json) :
    (Json.array items).elementText = (Json.array items).plainText := rfl

/-! ## Leaves -/

def IsLeaf (value : Json) : Prop :=
  ∀ item items, value ≠ .array (item :: items)

/-- The part is the value itself, or lies in an element of it at any depth. -/
inductive Inside (part : Json) : Json → Prop
  | itself : Inside part part
  | element {item : Json} {items : List Json} (hitem : item ∈ items) (hinside : Inside part item) :
      Inside part (.array items)

mutual

def leaves : Json → List Json
  | .array (item :: items) => leaves item ++ leavesOfItems items
  | leaf => [leaf]

def leavesOfItems : List Json → List Json
  | [] => []
  | item :: items => leaves item ++ leavesOfItems items

end

theorem leaves_array {items : List Json} (hne : items ≠ []) :
    (Json.array items).leaves = leavesOfItems items := by
  cases items with
  | nil => exact absurd rfl hne
  | cons item items => rw [leaves, leavesOfItems]

private theorem leaves_of_isLeaf {value : Json} (h : value.IsLeaf) : value.leaves = [value] := by
  rw [leaves]
  exact h

theorem leavesOfItems_eq_flatMap (items : List Json) :
    leavesOfItems items = items.flatMap leaves := by
  induction items with
  | nil => rw [leavesOfItems, List.flatMap_nil]
  | cons item items ih => rw [leavesOfItems, List.flatMap_cons, ih]

@[simp] theorem leaves_ne_nil : ∀ value : Json, value.leaves ≠ []
  | .array (item :: items) => by
      rw [leaves]
      exact List.append_ne_nil_of_left_ne_nil (leaves_ne_nil item) _
  | .array [] => by simp [leaves]
  | .null | .bool _ | .number _ | .string _ | .object _ => by simp [leaves]

private theorem isLeaf_empty : (Json.array []).IsLeaf := nofun

private theorem inside_of_mem_leaves {leaf : Json} : ∀ value : Json, leaf ∈ value.leaves →
    leaf.IsLeaf ∧ Inside leaf value
  | .array (item :: items), h => by
      rw [leaves_array (List.cons_ne_nil item items), leavesOfItems_eq_flatMap] at h
      obtain ⟨part, hpart, hmem⟩ := List.mem_flatMap.1 h
      obtain ⟨hleaf, hinside⟩ := inside_of_mem_leaves part hmem
      exact ⟨hleaf, .element hpart hinside⟩
  | .array [], h => by
      obtain rfl := List.mem_singleton.1 h
      exact ⟨isLeaf_empty, .itself⟩
  | .null, h | .bool _, h | .number _, h | .string _, h | .object _, h => by
      obtain rfl := List.mem_singleton.1 h
      exact ⟨nofun, .itself⟩

theorem mem_leaves_iff {leaf value : Json} :
    leaf ∈ value.leaves ↔ leaf.IsLeaf ∧ Inside leaf value := by
  constructor
  · exact inside_of_mem_leaves value
  · rintro ⟨hleaf, hinside⟩
    induction hinside with
    | itself =>
        rw [leaves_of_isLeaf hleaf]
        exact List.mem_singleton_self leaf
    | element hitem hinside ih =>
        rw [leaves_array (List.ne_nil_of_mem hitem), leavesOfItems_eq_flatMap, List.mem_flatMap]
        exact ⟨_, hitem, ih⟩

/-! ## The text of an array -/

mutual

/-- The text that an element adds is joined from those of its leaves. -/
theorem elementText_eq_joined : ∀ value : Json,
    value.elementText = Text.joined "," (value.leaves.map elementText)
  | .array [] => rfl
  | .array (item :: items) => by
      have hgroups : ∀ group ∈ (item :: items).map fun item => item.leaves.map elementText,
          group ≠ [] := by
        simp
      rw [elementText_array, plainText_array, map_elementText_eq (item :: items),
        Text.joined_flatten "," hgroups, leaves_array (List.cons_ne_nil item items),
        leavesOfItems_eq_flatMap, List.map_flatMap, List.flatMap_def]
  | .null | .bool _ | .number _ | .string _ | .object _ => rfl

theorem map_elementText_eq : ∀ items : List Json,
    items.map elementText =
      (items.map fun item => item.leaves.map elementText).map (Text.joined ",")
  | [] => rfl
  | item :: items => by
      rw [List.map_cons, List.map_cons, List.map_cons, elementText_eq_joined item,
        map_elementText_eq items]

end

theorem plainText_array_eq_joined (items : List Json) :
    (Json.array items).plainText = Text.joined "," ((Json.array items).leaves.map elementText) :=
  elementText_eq_joined (.array items)

private theorem leaves_splice (first middle last : List Json) (hne : middle ≠ []) :
    (Json.array (first ++ .array middle :: last)).leaves =
      (Json.array (first ++ middle ++ last)).leaves := by
  rw [leaves_array (by simp), leaves_array (by simp [hne])]
  simp only [leavesOfItems_eq_flatMap, List.flatMap_append, List.flatMap_cons, leaves_array hne,
    List.append_assoc]

/-- Only a string can have a comma of its own. -/
private theorem comma_notMem_elementText {leaf : Json} (hleaf : leaf.IsLeaf)
    (hstring : ∀ text, leaf = .string text → ',' ∉ text.toList) :
    ',' ∉ leaf.elementText.toList := by
  cases leaf with
  | null => decide
  | bool value => cases value <;> decide
  | number number =>
      intro hmem
      have hnumeral := Number.numeral_of_mem_text hmem
      simp [NumberLayout.Numeral, Pattern.isDigit] at hnumeral
  | string text => exact hstring text rfl
  | array items =>
      cases items with
      | nil => decide
      | cons item items => exact absurd rfl (hleaf item items)
  | object members =>
      show ',' ∉ "[object Object]".toList
      decide

private theorem count_comma_plainText {items : List Json}
    (h : ∀ text, .string text ∈ (Json.array items).leaves → ',' ∉ text.toList) :
    (Json.array items).plainText.toList.count ',' + 1 = (Json.array items).leaves.length := by
  have hne : (Json.array items).leaves.map elementText ≠ [] := by
    simp
  have hpieces : ∀ piece ∈ (Json.array items).leaves.map elementText, ',' ∉ piece.toList := by
    intro piece hpiece
    obtain ⟨leaf, hmem, rfl⟩ := List.mem_map.1 hpiece
    refine comma_notMem_elementText (mem_leaves_iff.1 hmem).1 ?_
    rintro text rfl
    exact h text hmem
  have hcount := Text.count_joined hne hpieces
  rw [List.length_map] at hcount
  rw [plainText_array_eq_joined]
  exact hcount

end Json

open Json in
/-- An array that is an element may be replaced by its elements without a change to the text, if
it has any, and by `null` otherwise.  So the text of an array is joined from those of its leaves,
which are the values without elements inside it; each comma stands between two of these unless a
string holds it. -/
theorem array_text_joins_leaves :
    (∀ first middle last, middle ≠ [] →
      (Json.array (first ++ .array middle :: last)).plainText =
        (Json.array (first ++ middle ++ last)).plainText) ∧
    (∀ first last, (Json.array (first ++ .array [] :: last)).plainText =
      (Json.array (first ++ .null :: last)).plainText) ∧
    ∀ items,
      (Json.array items).plainText = Text.joined "," ((Json.array items).leaves.map elementText) ∧
      (∀ leaf, leaf ∈ (Json.array items).leaves ↔ leaf.IsLeaf ∧ Inside leaf (.array items)) ∧
      (elementText .null = "" ∧ elementText (.array []) = "" ∧
        (∀ members, elementText (.object members) = "[object Object]") ∧
        ∀ leaf : Json, leaf.isStructured = false → leaf ≠ .null →
          leaf.elementText = leaf.plainText) ∧
      ((∀ text, .string text ∈ (Json.array items).leaves → ',' ∉ text.toList) →
        (Json.array items).plainText.toList.count ',' + 1 = (Json.array items).leaves.length) := by
  refine ⟨?_, ?_, ?_⟩
  · intro first middle last hne
    rw [plainText_array_eq_joined, plainText_array_eq_joined, leaves_splice first middle last hne]
  · intro first last
    have hempty : elementText (.array []) = elementText .null := rfl
    rw [plainText_array, plainText_array, List.map_append, List.map_append, List.map_cons,
      List.map_cons, hempty]
  · intro items
    refine ⟨plainText_array_eq_joined items, fun leaf => mem_leaves_iff, ⟨rfl, rfl, ?_, ?_⟩,
      count_comma_plainText⟩
    · exact fun members => rfl
    · intro leaf hscalar hne
      cases leaf <;> first | rfl | exact absurd rfl hne

theorem nestedNumbers_text :
    let number (value : Int) : Json := .number (.integer value)
    let inner : List Json := [number 2, .array [.null], .array []]
    let last : List Json := [.object [("a", number 1)], .string "x"]
    inner ≠ [] ∧
    (Json.array ([number 1] ++ .array inner :: last)).plainText =
      (Json.array ([number 1] ++ inner ++ last)).plainText ∧
    (∀ text, .string text ∈ (Json.array ([number 1] ++ .array inner :: last)).leaves →
      ',' ∉ text.toList) ∧
    (Json.array ([number 1] ++ .array inner :: last)).plainText = "1,2,,,[object Object],x" ∧
    (Json.array ([number 1] ++ .array inner :: last)).plainText.toList.count ',' + 1 = 6 := by
  intro number inner last
  have hne : inner ≠ [] := nofun
  have hleaves : (Json.array ([number 1] ++ .array inner :: last)).leaves =
      [number 1, number 2, .null, .array [], .object [("a", number 1)], .string "x"] := rfl
  have hstrings : ∀ text, .string text ∈
      (Json.array ([number 1] ++ .array inner :: last)).leaves → ',' ∉ text.toList := by
    rw [hleaves]
    simp [number]
  obtain ⟨hsplice, -, hjoin⟩ := array_text_joins_leaves
  obtain ⟨htext, -, -, hcount⟩ := hjoin ([number 1] ++ .array inner :: last)
  refine ⟨hne, hsplice [number 1] inner last hne, hstrings, ?_, ?_⟩
  · rw [htext, hleaves]
    decide +kernel
  · rw [hcount hstrings, hleaves]
    rfl

end TreeSyntax
