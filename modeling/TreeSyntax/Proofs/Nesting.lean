import Mathlib.Order.MinMax
import TreeSyntax.Json.Trail
import TreeSyntax.Proofs.Node

/-!
# The nesting of values

A container is nested one deeper than the deepest of its parts.  Merging repeated keys and
following a pointer never leave a value that is nested deeper than the one they started from.
-/

namespace TreeSyntax

namespace Entries

variable {α : Type} {entry : String × α}

theorem mem_put {entries : Entries α} {name : String} {value : α}
    (h : entry ∈ put entries name value) : entry = (name, value) ∨ entry ∈ entries := by
  induction entries with
  | nil => exact .inl (List.mem_singleton.mp h)
  | cons first entries ih =>
      rw [put] at h
      split at h
      · rcases List.mem_cons.mp h with rfl | hrest
        · exact .inl rfl
        · exact .inr (List.mem_cons_of_mem first hrest)
      · rcases List.mem_cons.mp h with rfl | hrest
        · exact .inr List.mem_cons_self
        · exact (ih hrest).imp_right (List.mem_cons_of_mem first)

theorem mem_putAll {entries more : Entries α} (h : entry ∈ putAll entries more) :
    entry ∈ entries ∨ entry ∈ more := by
  induction more generalizing entries with
  | nil => exact .inl h
  | cons first more ih =>
      rcases ih h with hput | hmore
      · rcases mem_put hput with rfl | hentries
        · exact .inr List.mem_cons_self
        · exact .inl hentries
      · exact .inr (List.mem_cons_of_mem first hmore)

theorem mem_of_mem_merge {written : Entries α} (h : entry ∈ merge written) : entry ∈ written :=
  (mem_putAll h).resolve_left List.not_mem_nil

end Entries

namespace Json

/-! ## Parts -/

theorem nestingOfItems_le_iff {items : List Json} {bound : Nat} :
    nestingOfItems items ≤ bound ↔ ∀ item ∈ items, item.nesting ≤ bound := by
  induction items with
  | nil => simp [nestingOfItems]
  | cons item items ih => simp [nestingOfItems, ih]

theorem nestingOfMembers_le_iff {members : Members} {bound : Nat} :
    nestingOfMembers members ≤ bound ↔ ∀ member ∈ members, member.2.nesting ≤ bound := by
  induction members with
  | nil => simp [nestingOfMembers]
  | cons member members ih => simp [nestingOfMembers, ih]

theorem nesting_lt_of_find? {members : Members} {key : String} {value : Json}
    (h : Entries.find? members key = some value) : value.nesting < (object members).nesting := by
  have hparts := nestingOfMembers_le_iff.mp (Nat.le_refl (nestingOfMembers members))
  exact Nat.lt_succ_of_le (hparts (key, value) (Entries.mem_of_find? h))

theorem nesting_lt_of_getElem? {items : List Json} {index : Nat} {item : Json}
    (h : items[index]? = some item) : item.nesting < (array items).nesting := by
  have hparts := nestingOfItems_le_iff.mp (Nat.le_refl (nestingOfItems items))
  exact Nat.lt_succ_of_le (hparts item (List.mem_of_getElem? h))

/-! ## Merged keys -/

mutual

theorem nesting_merged_le : (value : Json) → value.merged.nesting ≤ value.nesting
  | .array items => Nat.succ_le_succ (nestingOfItems_merged_le items)
  | .object members => by
      have hmerged : nestingOfMembers (Entries.merge (mergedMembers members)) ≤
          nestingOfMembers (mergedMembers members) :=
        nestingOfMembers_le_iff.mpr fun member hmember =>
          nestingOfMembers_le_iff.mp (Nat.le_refl _) member (Entries.mem_of_mem_merge hmember)
      exact Nat.succ_le_succ (hmerged.trans (nestingOfMembers_merged_le members))
  | .null | .bool _ | .number _ | .string _ => Nat.le_refl 0

theorem nestingOfItems_merged_le :
    (items : List Json) → nestingOfItems (mergedItems items) ≤ nestingOfItems items
  | [] => Nat.le_refl 0
  | item :: items => max_le_max (nesting_merged_le item) (nestingOfItems_merged_le items)

theorem nestingOfMembers_merged_le :
    (members : List (String × Json)) →
      nestingOfMembers (mergedMembers members) ≤ nestingOfMembers members
  | [] => Nat.le_refl 0
  | (_, value) :: members =>
      max_le_max (nesting_merged_le value) (nestingOfMembers_merged_le members)

end

/-! ## Pointers -/

theorem nesting_lt_of_pointerChild? {value child : Json} {segment : String}
    (h : value.pointerChild? segment = some child) : child.nesting < value.nesting := by
  cases value with
  | object members => exact nesting_lt_of_find? h
  | array items =>
      obtain ⟨index, hindex, hitem⟩ := Option.bind_eq_some_iff.mp h
      exact nesting_lt_of_getElem? hitem
  | _ => cases h

theorem nesting_le_of_followPointerSegments? {value part : Json} {segments : List String}
    (h : value.followPointerSegments? segments = some part) : part.nesting ≤ value.nesting := by
  induction segments generalizing value with
  | nil =>
      obtain rfl := Option.some.inj h
      exact Nat.le_refl _
  | cons segment segments ih =>
      obtain ⟨child, hchild, hrest⟩ := Option.bind_eq_some_iff.mp h
      exact (ih hrest).trans (nesting_lt_of_pointerChild? hchild).le

theorem nesting_le_of_pointer? {value part : Json} {pointer : String}
    (h : value.pointer? pointer = some part) : part.nesting ≤ value.nesting := by
  obtain ⟨segments, hsegments, hpart⟩ := Option.bind_eq_some_iff.mp h
  exact nesting_le_of_followPointerSegments? hpart

end Json

end TreeSyntax
