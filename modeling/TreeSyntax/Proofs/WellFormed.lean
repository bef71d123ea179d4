import TreeSyntax.Json.Reader
import TreeSyntax.Proofs.Nesting

/-!
# Values without repeated keys

In a well-formed value a key stands for one member, wherever the member is in its object.  Every
value that a text is read as is well formed, since its repeated keys were merged.
-/

namespace TreeSyntax

/-! ## Entries with distinct names -/

namespace Entries

variable {α : Type} {entries entries' : Entries α}

theorem find?_eq_some_iff_mem {name : String} {value : α} (hnodup : (names entries).Nodup) :
    find? entries name = some value ↔ (name, value) ∈ entries := by
  refine ⟨mem_of_find?, fun hmem => ?_⟩
  obtain ⟨before, after, rfl⟩ := List.append_of_mem hmem
  refine List.lookup_eq_some_iff.mpr ⟨before, after, rfl, fun entry hentry => ?_⟩
  simp only [names_append, names_cons, List.nodup_append] at hnodup
  have hother := hnodup.2.2 entry.1 (List.mem_map_of_mem hentry) name List.mem_cons_self
  simpa using hother.symm

theorem find?_perm (hperm : entries.Perm entries') (hnodup : (names entries).Nodup)
    (name : String) : find? entries name = find? entries' name := by
  have hnodup' : (names entries').Nodup := (hperm.map Prod.fst).nodup_iff.mp hnodup
  refine Option.ext fun value => ?_
  rw [find?_eq_some_iff_mem hnodup, find?_eq_some_iff_mem hnodup', hperm.mem_iff]

/-! ## Names and values in order -/

@[simp] theorem names_map_snd {β : Type} (convert : α → β) (entries : Entries α) :
    names (entries.map fun entry => (entry.1, convert entry.2)) = names entries := by
  rw [names, names, List.map_map]
  rfl

theorem find?_cons (entry : String × α) (entries : Entries α) (name : String) :
    find? (entry :: entries) name =
      if name = entry.1 then some entry.2 else find? entries name := by
  obtain ⟨first, value⟩ := entry
  by_cases hname : name = first
  · simp [find?, hname]
  · simp [find?, List.lookup_cons, hname, beq_false_of_ne hname]

theorem find?_map_snd {β : Type} (convert : α → β) (entries : Entries α) (name : String) :
    find? (entries.map fun entry => (entry.1, convert entry.2)) name =
      (find? entries name).map convert := by
  induction entries with
  | nil => rfl
  | cons entry entries ih =>
      rw [List.map_cons, find?_cons, find?_cons, ih]
      split <;> rfl

/-! ## Merged entries -/

theorem names_put (entries : Entries α) (name : String) (value : α) :
    names (put entries name value) =
      if name ∈ names entries then names entries else names entries ++ [name] := by
  induction entries with
  | nil => rfl
  | cons entry entries ih =>
      by_cases hname : entry.1 = name
      · simp [put, hname]
      · have hother : name ≠ entry.1 := Ne.symm hname
        rw [put, if_neg (by simpa using hname), names_cons, names_cons, ih]
        by_cases hmem : name ∈ names entries <;> simp [hmem, hother]

/-- The names that are new come after the old ones, each once. -/
theorem names_putAll (entries more : Entries α) :
    names (putAll entries more) =
      names entries ++ ((names more).removeAll (names entries)).eraseDups := by
  induction more generalizing entries with
  | nil => simp [putAll, List.removeAll]
  | cons entry more ih =>
      have hput : putAll entries (entry :: more) = putAll (put entries entry.1 entry.2) more := rfl
      rw [hput, ih, names_put, names_cons]
      by_cases hmem : entry.1 ∈ names entries
      · simp [hmem, List.removeAll]
      · have hnew : (entry.1 :: names more).removeAll (names entries) =
            entry.1 :: (names more).removeAll (names entries) := by
          simp [hmem, List.removeAll]
        rw [if_neg hmem, hnew, List.eraseDups_cons, List.append_assoc, List.singleton_append]
        congr 3
        simp only [List.removeAll, List.filter_filter]
        refine List.filter_congr fun name _ => ?_
        by_cases hname : name = entry.1 <;> simp [hname]

theorem names_merge (written : Entries α) : names (merge written) = (names written).eraseDups := by
  rw [merge, names_putAll, names, List.map_nil, List.removeAll_nil, List.nil_append]

theorem find?_put (entries : Entries α) (name other : String) (value : α) :
    find? (put entries name value) other =
      if other = name then some value else find? entries other := by
  induction entries with
  | nil => exact find?_cons (name, value) [] other
  | cons entry entries ih =>
      by_cases hfirst : entry.1 = name
      · rw [put, if_pos (by simpa using hfirst), find?_cons, find?_cons, hfirst]
        by_cases hname : other = name <;> simp [hname]
      · rw [put, if_neg (by simpa using hfirst), find?_cons, find?_cons, ih]
        by_cases hname : other = name
        · simp [hname, Ne.symm hfirst]
        · simp [hname]

/-- The last entry of a name gives its value. -/
theorem find?_putAll (entries more : Entries α) (name : String) :
    find? (putAll entries more) name = (find? more.reverse name).or (find? entries name) := by
  induction more generalizing entries with
  | nil => rfl
  | cons entry more ih =>
      have hput : putAll entries (entry :: more) = putAll (put entries entry.1 entry.2) more := rfl
      have hlast : find? (more.reverse ++ [entry]) name =
          (find? more.reverse name).or (find? [entry] name) := List.lookup_append
      rw [hput, ih, find?_put, List.reverse_cons, hlast, find?_cons, Option.or_assoc]
      by_cases hname : name = entry.1 <;> simp [hname, find?]

theorem find?_merge (written : Entries α) (name : String) :
    find? (merge written) name = find? written.reverse name := by
  rw [merge, find?_putAll]
  exact Option.or_none

theorem put_map_snd {β : Type} (convert : α → β) (entries : Entries α) (name : String) (value : α) :
    put (entries.map fun entry => (entry.1, convert entry.2)) name (convert value) =
      (put entries name value).map fun entry => (entry.1, convert entry.2) := by
  induction entries with
  | nil => rfl
  | cons entry entries ih =>
      rw [List.map_cons, put, put, ih]
      split <;> rfl

theorem putAll_map_snd {β : Type} (convert : α → β) (entries more : Entries α) :
    putAll (entries.map fun entry => (entry.1, convert entry.2))
        (more.map fun entry => (entry.1, convert entry.2)) =
      (putAll entries more).map fun entry => (entry.1, convert entry.2) := by
  induction more generalizing entries with
  | nil => rfl
  | cons entry more ih =>
      have hmore := ih (put entries entry.1 entry.2)
      rw [← put_map_snd] at hmore
      exact hmore

theorem putAll_merge (written more : Entries α) :
    putAll (merge written) more = merge (written ++ more) := by
  rw [merge, merge, putAll, putAll, putAll, List.foldl_append]

theorem nodup_putAll {more : Entries α} (hnodup : (names entries).Nodup) :
    (names (putAll entries more)).Nodup := by
  induction more generalizing entries with
  | nil => exact hnodup
  | cons entry more ih =>
      refine ih ?_
      rw [names_put]
      split
      · exact hnodup
      next hnew =>
        have hapart : ∀ name ∈ names entries, name ≠ entry.1 := fun name hname heq =>
          hnew (heq ▸ hname)
        simpa [List.nodup_append, hnodup] using hapart

theorem nodup_merge (written : Entries α) : (names (merge written)).Nodup :=
  nodup_putAll List.nodup_nil

theorem put_of_notMem {name : String} (hnew : name ∉ names entries) (value : α) :
    put entries name value = entries ++ [(name, value)] := by
  induction entries with
  | nil => rfl
  | cons entry entries ih =>
      rw [names_cons, List.mem_cons, not_or] at hnew
      rw [put, if_neg (by simpa using Ne.symm hnew.1), ih hnew.2, List.cons_append]

theorem putAll_of_nodup {more : Entries α} (hnodup : (names (entries ++ more)).Nodup) :
    putAll entries more = entries ++ more := by
  induction more generalizing entries with
  | nil => rw [List.append_nil, putAll, List.foldl_nil]
  | cons entry more ih =>
      have hnew : entry.1 ∉ names entries := by
        intro hmem
        rw [names, List.map_append, List.nodup_append] at hnodup
        exact hnodup.2.2 entry.1 hmem entry.1 List.mem_cons_self rfl
      rw [List.append_cons] at hnodup ⊢
      rw [← ih hnodup, putAll, List.foldl_cons, put_of_notMem hnew, putAll]

theorem merge_of_nodup (hnodup : (names entries).Nodup) : merge entries = entries :=
  putAll_of_nodup hnodup

end Entries

namespace Json

/-! ## Well-formed parts -/

@[simp] theorem wellFormedItems_iff {items : List Json} :
    WellFormedItems items ↔ ∀ item ∈ items, item.WellFormed := by
  induction items with
  | nil => simp [WellFormedItems]
  | cons item items ih => simp [WellFormedItems, ih]

@[simp] theorem wellFormedMembers_iff {members : Members} :
    WellFormedMembers members ↔ ∀ member ∈ members, member.2.WellFormed := by
  induction members with
  | nil => simp [WellFormedMembers]
  | cons member members ih => simp [WellFormedMembers, ih]

theorem WellFormed.find? {members : Members} {key : String} {value : Json}
    (h : (object members).WellFormed) (hvalue : Entries.find? members key = some value) :
    value.WellFormed :=
  wellFormedMembers_iff.mp h.2 (key, value) (Entries.mem_of_find? hvalue)

theorem WellFormed.valueAt {members : Members} (h : (object members).WellFormed) (key : String) :
    (valueAt members key).WellFormed := by
  cases hvalue : Entries.find? members key with
  | none => simp [TreeSyntax.valueAt, hvalue, WellFormed]
  | some value => exact valueAt_eq hvalue ▸ h.find? hvalue

theorem WellFormed.getElem? {items : List Json} {index : Nat} {item : Json}
    (h : (array items).WellFormed) (hitem : items[index]? = some item) : item.WellFormed :=
  wellFormedItems_iff.mp h item (List.mem_of_getElem? hitem)

/-! ## Merged keys -/

mutual

theorem wellFormed_merged : (value : Json) → value.merged.WellFormed
  | .array items => wellFormedItems_merged items
  | .object members =>
      ⟨Entries.nodup_merge (mergedMembers members),
        wellFormedMembers_iff.mpr fun member hmember =>
          wellFormedMembers_iff.mp (wellFormedMembers_merged members) member
            (Entries.mem_of_mem_merge hmember)⟩
  | .null | .bool _ | .number _ | .string _ => trivial

theorem wellFormedItems_merged : (items : List Json) → WellFormedItems (mergedItems items)
  | [] => trivial
  | item :: items => ⟨wellFormed_merged item, wellFormedItems_merged items⟩

theorem wellFormedMembers_merged :
    (members : List (String × Json)) → WellFormedMembers (mergedMembers members)
  | [] => trivial
  | (_, value) :: members => ⟨wellFormed_merged value, wellFormedMembers_merged members⟩

end

mutual

theorem merged_of_wellFormed : {value : Json} → value.WellFormed → value.merged = value
  | .array _, h => congrArg array (mergedItems_of_wellFormed h)
  | .object _, h => by
      rw [merged, mergedMembers_of_wellFormed h.2, Entries.merge_of_nodup h.1]
  | .null, _ | .bool _, _ | .number _, _ | .string _, _ => rfl

theorem mergedItems_of_wellFormed :
    {items : List Json} → WellFormedItems items → mergedItems items = items
  | [], _ => rfl
  | _ :: _, h => congrArg₂ List.cons (merged_of_wellFormed h.1) (mergedItems_of_wellFormed h.2)

theorem mergedMembers_of_wellFormed :
    {members : List (String × Json)} → WellFormedMembers members →
      mergedMembers members = members
  | [], _ => rfl
  | (key, _) :: _, h =>
      congrArg₂ (fun value members => (key, value) :: members) (merged_of_wellFormed h.1)
        (mergedMembers_of_wellFormed h.2)

end

theorem wellFormed_of_parse {text : String} {value : Json} (h : parse text = .ok value) :
    value.WellFormed := by
  rw [parse] at h
  cases hwritten : parseWritten nestingLimit text with
  | error fault => simp [hwritten, Except.map] at h
  | ok written =>
      simp only [hwritten, Except.map, Except.ok.injEq] at h
      exact h ▸ wellFormed_merged written

end Json

end TreeSyntax
