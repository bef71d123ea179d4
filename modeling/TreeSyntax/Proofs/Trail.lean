import Mathlib.Data.List.Forall2
import Mathlib.Data.List.Induction
import TreeSyntax.Json.Trail
import TreeSyntax.Proofs.Node

/-!
# Indices and trails

An index that fits into 64 bits is read back from its decimal form, also after zeros and a plus
sign.  So the segments of a path lead to a part of a value exactly if they spell a trail of keys
and indices that leads there.
-/

namespace TreeSyntax

/-! ## Decimal indices -/

namespace Text

theorem digitValue?_eq_some_iff {character : Char} {digit : Nat} :
    digitValue? character = some digit ↔
      character.isDigit = true ∧ character.toNat - '0'.toNat = digit := by
  have hrange : ('0' ≤ character ∧ character ≤ '9') ↔ character.isDigit = true :=
    Char.isDigit_iff_toNat.symm
  rw [digitValue?, Option.ite_none_right_eq_some, hrange, Option.some.injEq]

theorem digitsFrom?_eq_some_iff {characters : List Char} {high value : Nat} :
    digitsFrom? high characters = some value ↔
      (∀ character ∈ characters, character.isDigit = true) ∧
        Nat.ofDigitChars 10 characters high = value := by
  induction characters generalizing high with
  | nil => simp [digitsFrom?]
  | cons character characters ih =>
      simp only [digitsFrom?, Option.bind_eq_some_iff, digitValue?_eq_some_iff, ih,
        List.forall_mem_cons, Nat.ofDigitChars_cons, and_assoc, exists_and_left,
        exists_eq_left']

theorem isDigit_of_mem_padded {zeros index : Nat} :
    ∀ digit ∈ List.replicate zeros '0' ++ Nat.toDigits 10 index, digit.isDigit = true := by
  intro digit hmem
  rcases List.mem_append.mp hmem with hzero | hdigit
  · rw [List.eq_of_mem_replicate hzero]
    rfl
  · exact Nat.isDigit_of_mem_toDigits (by decide) (by decide) hdigit

private theorem digitChar_of_isDigit {character : Char} (h : character.isDigit = true) :
    character.toNat - '0'.toNat < 10 ∧
      Nat.digitChar (character.toNat - '0'.toNat) = character := by
  have hrange : 48 ≤ character.toNat ∧ character.toNat ≤ 57 := Char.isDigit_iff_toNat.mp h
  have hzero : '0'.toNat = 48 := rfl
  have hlt : character.toNat - '0'.toNat < 10 := by omega
  refine ⟨hlt, Char.toNat_inj.mp ?_⟩
  rw [Nat.toNat_digitChar_of_lt_ten hlt]
  omega

/-- Digits are the shortest form of their value after zeros. -/
theorem exists_zeros_append {digits : List Char} (hne : digits ≠ [])
    (h : ∀ digit ∈ digits, digit.isDigit = true) :
    ∃ zeros, digits =
      List.replicate zeros '0' ++ Nat.toDigits 10 (Nat.ofDigitChars 10 digits 0) := by
  -- From the end, since the last digit extends the shortest form of those in front of it, unless
  -- these are zeros only.
  induction digits using List.reverseRecOn with
  | nil => exact absurd rfl hne
  | append_singleton front last ih =>
      obtain ⟨hfront, hlast⟩ := List.forall_mem_append.mp h
      obtain ⟨hlt, hdigit⟩ := digitChar_of_isDigit (hlast last (List.mem_singleton_self last))
      have hvalue : Nat.ofDigitChars 10 (front ++ [last]) 0 =
          10 * Nat.ofDigitChars 10 front 0 + (last.toNat - '0'.toNat) := by
        rw [Nat.ofDigitChars_append, Nat.ofDigitChars_cons, Nat.ofDigitChars_nil]
      have hsingle := Nat.toDigits_of_lt_base hlt
      rw [hdigit] at hsingle
      rw [hvalue]
      by_cases hempty : front = []
      · subst hempty
        exact ⟨0, by rw [Nat.ofDigitChars_nil, Nat.mul_zero, Nat.zero_add, hsingle]; rfl⟩
      · obtain ⟨zeros, hzeros⟩ := ih hempty hfront
        rcases Nat.eq_zero_or_pos (Nat.ofDigitChars 10 front 0) with hnone | hpositive
        · rw [hnone, Nat.toDigits_zero, ← List.replicate_succ'] at hzeros
          exact ⟨zeros + 1, by rw [hnone, Nat.mul_zero, Nat.zero_add, hsingle, hzeros]⟩
        · refine ⟨zeros, ?_⟩
          rw [← Nat.toDigits_append_toDigits (by decide) hpositive hlt, hsingle,
            ← List.append_assoc, ← hzeros]

theorem digits?_eq_some_iff {characters : List Char} {index : Nat} :
    digits? characters = some index ↔ index < unsignedBound ∧
      ∃ zeros, characters = List.replicate zeros '0' ++ Nat.toDigits 10 index := by
  constructor
  · intro h
    cases characters with
    | nil => cases h
    | cons first rest =>
        obtain ⟨hdigits, hbound⟩ := Option.filter_eq_some_iff.mp h
        obtain ⟨hall, rfl⟩ := digitsFrom?_eq_some_iff.mp hdigits
        exact ⟨by simpa using hbound, exists_zeros_append (List.cons_ne_nil first rest) hall⟩
  · rintro ⟨hbound, zeros, rfl⟩
    have hvalue : Nat.ofDigitChars 10 (List.replicate zeros '0' ++ Nat.toDigits 10 index) 0 =
        index := by
      rw [Nat.ofDigitChars_append, Nat.ofDigitChars_replicate_zero, Nat.mul_zero,
        Nat.ofDigitChars_ten_toDigits]
    have hne : List.replicate zeros '0' ++ Nat.toDigits 10 index ≠ [] :=
      List.append_ne_nil_of_right_ne_nil _ Nat.toDigits_ne_nil
    rw [digits?, digitsFrom?_eq_some_iff.mpr ⟨isDigit_of_mem_padded, hvalue⟩]
    · simpa using hbound
    · exact hne

/-- Zeros may stand before the decimal form of an index, and a plus sign before all of it. -/
theorem unsigned?_eq_some_iff {text : String} {index : Nat} :
    unsigned? text = some index ↔ index < unsignedBound ∧
      ∃ sign zeros, (sign = "" ∨ sign = "+") ∧
        text = sign ++ String.ofList (List.replicate zeros '0') ++ indexText index := by
  have htext (sign : String) (zeros : Nat) :
      text = sign ++ String.ofList (List.replicate zeros '0') ++ indexText index ↔
        text.toList = sign.toList ++ (List.replicate zeros '0' ++ Nat.toDigits 10 index) := by
    rw [← String.toList_inj]
    simp [indexText]
  simp only [htext, unsigned?]
  split
  next rest hplus =>
    rw [hplus, digits?_eq_some_iff]
    refine and_congr_right fun _ => ⟨?_, ?_⟩
    · rintro ⟨zeros, rfl⟩
      exact ⟨"+", zeros, .inr rfl, rfl⟩
    · rintro ⟨sign, zeros, rfl | rfl, hrest⟩
      · have hdigit := isDigit_of_mem_padded '+' (hrest ▸ List.mem_cons_self)
        simp [Char.isDigit] at hdigit
      · exact ⟨zeros, List.tail_eq_of_cons_eq hrest⟩
  next hplain =>
    rw [digits?_eq_some_iff]
    refine and_congr_right fun _ => ⟨?_, ?_⟩
    · rintro ⟨zeros, hdigits⟩
      exact ⟨"", zeros, .inl rfl, hdigits⟩
    · rintro ⟨sign, zeros, rfl | rfl, hdigits⟩
      · exact ⟨zeros, hdigits⟩
      · exact absurd hdigits (hplain _)

end Text

theorem indexText_injective {first second : Nat} (h : indexText first = indexText second) :
    first = second := by
  have hdigits : Nat.toDigits 10 first = Nat.toDigits 10 second := by
    simpa [indexText] using congrArg String.toList h
  have hvalues := congrArg (Nat.ofDigitChars 10 · 0) hdigits
  simpa using hvalues

/-! ## Addressable values -/

namespace Json

mutual

/-- Every array in the tree is as short as an array in memory has to be: each of its elements has an
index of 64 bits. -/
def Addressable : Json → Prop
  | .array items => items.length ≤ Text.unsignedBound ∧ AddressableItems items
  | .object members => AddressableMembers members
  | _ => True

def AddressableItems : List Json → Prop
  | [] => True
  | item :: items => item.Addressable ∧ AddressableItems items

def AddressableMembers : List (String × Json) → Prop
  | [] => True
  | (_, value) :: members => value.Addressable ∧ AddressableMembers members

end

@[simp] theorem addressableItems_iff {items : List Json} :
    AddressableItems items ↔ ∀ item ∈ items, item.Addressable := by
  induction items with
  | nil => simp [AddressableItems]
  | cons item items ih => simp [AddressableItems, ih]

@[simp] theorem addressableMembers_iff {members : Members} :
    AddressableMembers members ↔ ∀ member ∈ members, member.2.Addressable := by
  induction members with
  | nil => simp [AddressableMembers]
  | cons member members ih => simp [AddressableMembers, ih]

theorem Addressable.find? {members : Members} {key : String} {value : Json}
    (h : (object members).Addressable) (hvalue : Entries.find? members key = some value) :
    value.Addressable :=
  addressableMembers_iff.mp h (key, value) (Entries.mem_of_find? hvalue)

theorem Addressable.getElem? {items : List Json} {index : Nat} {item : Json}
    (h : (array items).Addressable) (hitem : items[index]? = some item) : item.Addressable :=
  addressableItems_iff.mp h.2 item (List.mem_of_getElem? hitem)

/-! ## Trails -/

theorem follow?_element {items : List Json} {index : Nat} {item : Json}
    (h : items.length ≤ Text.unsignedBound) (hitem : items[index]? = some item) {sign : String}
    (hsign : sign = "" ∨ sign = "+") (zeros : Nat) :
    (array items).follow?
      [sign ++ String.ofList (List.replicate zeros '0') ++ indexText index] = some item := by
  have hlt : index < items.length := (List.getElem?_eq_some_iff.mp hitem).1
  have hindex := Text.unsigned?_eq_some_iff.mpr
    ⟨Nat.lt_of_lt_of_le hlt h, sign, zeros, hsign, rfl⟩
  simp [follow?, child?, hindex, hitem]

theorem follow?_indexText {items : List Json} {index : Nat} {item : Json}
    (h : items.length ≤ Text.unsignedBound) (hitem : items[index]? = some item) :
    (array items).follow? [indexText index] = some item := by
  simpa using follow?_element h hitem (.inl rfl) 0

theorem follow?_key {members : Members} {key : String} {value : Json}
    (hvalue : Entries.find? members key = some value) :
    (object members).follow? [key] = some value := by
  simp [follow?, child?, hvalue]

theorem follow?_append (value : Json) (first second : List String) :
    value.follow? (first ++ second) =
      (value.follow? first).bind fun inner => inner.follow? second := by
  induction first generalizing value with
  | nil => rfl
  | cons segment first ih => simp [follow?, ih, Option.bind_assoc]

theorem follow?_cons (value : Json) (segment : String) (segments : List String) :
    value.follow? (segment :: segments) =
      (value.follow? [segment]).bind fun child => child.follow? segments :=
  follow?_append value [segment] segments

/-! ## Branches -/

inductive Branch where
  | key (name : String)
  | element (index : Nat)

def Branch.text : Branch → String
  | .key name => name
  | .element index => indexText index

/-- A way to write a branch as a segment of a path.  Zeros may stand before an index, and a plus
sign before all of it. -/
inductive Branch.Spelled : Branch → String → Prop
  | key (name : String) : Spelled (.key name) name
  | element (index : Nat) {sign : String} (hsign : sign = "" ∨ sign = "+") (zeros : Nat) :
      Spelled (.element index)
        (sign ++ String.ofList (List.replicate zeros '0') ++ indexText index)

theorem Branch.spelled_text (branch : Branch) : branch.Spelled branch.text := by
  cases branch with
  | key name => exact .key name
  | element index =>
      simpa [Branch.text] using Branch.Spelled.element index (.inl rfl) 0

private theorem Branch.spelled_map_text (trail : List Branch) :
    List.Forall₂ Branch.Spelled trail (trail.map Branch.text) :=
  List.forall₂_map_right_iff.mpr (List.forall₂_same.mpr fun branch _ => branch.spelled_text)

inductive Leads : Json → List Branch → Json → Prop
  | here (value : Json) : Leads value [] value
  | key {members : Members} {name : String} {child node : Json} {trail : List Branch}
      (hchild : Entries.find? members name = some child) (hrest : Leads child trail node) :
      Leads (.object members) (.key name :: trail) node
  | element {items : List Json} {index : Nat} {child node : Json} {trail : List Branch}
      (hchild : items[index]? = some child) (hrest : Leads child trail node) :
      Leads (.array items) (.element index :: trail) node

namespace Leads

variable {first second last : Json} {trail more : List Branch}

theorem append (hfirst : Leads first trail second) (hsecond : Leads second more last) :
    Leads first (trail ++ more) last := by
  induction hfirst with
  | here value => exact hsecond
  | key hchild hrest ih => exact .key hchild (ih hsecond)
  | element hchild hrest ih => exact .element hchild (ih hsecond)

theorem addressable (h : Leads first trail second) (haddressable : first.Addressable) :
    second.Addressable := by
  induction h with
  | here value => exact haddressable
  | key hchild hrest ih => exact ih (haddressable.find? hchild)
  | element hchild hrest ih => exact ih (haddressable.getElem? hchild)

theorem follow?_spelled {segments : List String} (h : Leads first trail second)
    (haddressable : first.Addressable) (hspelled : List.Forall₂ Branch.Spelled trail segments) :
    first.follow? segments = some second := by
  induction h generalizing segments with
  | here value =>
      cases hspelled
      rfl
  | key hchild hrest ih =>
      obtain ⟨segment, segments, ⟨⟩, hsegments, rfl⟩ := List.forall₂_cons_left_iff.mp hspelled
      rw [follow?_cons, follow?_key hchild, Option.bind_some]
      exact ih (haddressable.find? hchild) hsegments
  | element hchild hrest ih =>
      obtain ⟨segment, segments, hsegment, hsegments, rfl⟩ :=
        List.forall₂_cons_left_iff.mp hspelled
      cases hsegment with
      | element _ hsign zeros =>
          rw [follow?_cons, follow?_element haddressable.1 hchild hsign zeros, Option.bind_some]
          exact ih (haddressable.getElem? hchild) hsegments

theorem follow? (h : Leads first trail second) (haddressable : first.Addressable) :
    first.follow? (trail.map Branch.text) = some second :=
  h.follow?_spelled haddressable (Branch.spelled_map_text trail)

theorem exists_of_follow? {segments : List String} (h : first.follow? segments = some last) :
    ∃ trail, List.Forall₂ Branch.Spelled trail segments ∧ Leads first trail last := by
  induction segments generalizing first with
  | nil =>
      cases h
      exact ⟨[], .nil, .here _⟩
  | cons segment segments ih =>
      obtain ⟨child, hchild, hrest⟩ := Option.bind_eq_some_iff.mp h
      obtain ⟨trail, hspelled, hleads⟩ := ih hrest
      cases first with
      | object members => exact ⟨.key segment :: trail, .cons (.key segment) hspelled,
          .key hchild hleads⟩
      | array items =>
          obtain ⟨index, hindex, hitem⟩ := Option.bind_eq_some_iff.mp hchild
          obtain ⟨-, sign, zeros, hsign, rfl⟩ := Text.unsigned?_eq_some_iff.mp hindex
          exact ⟨.element index :: trail, .cons (.element index hsign zeros) hspelled,
            .element hitem hleads⟩
      | _ => cases hchild

end Leads

end Json

end TreeSyntax
