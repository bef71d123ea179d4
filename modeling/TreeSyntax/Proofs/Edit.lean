import TreeSyntax.Proofs.Order

/-!
# Edits of a tree

An edit changes one node and leaves the rest of the tree alone.  What is collected at the node is
then collected among the same failures of other nodes, which lie before it and after it.
-/

namespace TreeSyntax

/-! ## Changing a part -/

namespace Entries

variable {α : Type}

def modify (entries : Entries α) (name : String) (change : α → α) : Entries α :=
  match entries with
  | [] => []
  | entry :: rest =>
      if entry.1 == name then (entry.1, change entry.2) :: rest
      else entry :: modify rest name change

@[simp] theorem names_modify (entries : Entries α) (name : String) (change : α → α) :
    names (modify entries name change) = names entries := by
  induction entries with
  | nil => rfl
  | cons entry rest ih =>
      rw [modify]
      split
      · rfl
      · exact congrArg (entry.1 :: ·) ih

@[simp] theorem modify_id (entries : Entries α) (name : String) :
    modify entries name id = entries := by
  induction entries with
  | nil => rfl
  | cons entry rest ih =>
      rw [modify, ih]
      split <;> rfl

theorem find?_modify_self {entries : Entries α} {name : String} {value : α}
    (h : find? entries name = some value) (change : α → α) :
    find? (modify entries name change) name = some (change value) := by
  induction entries with
  | nil => cases h
  | cons entry rest ih =>
      obtain ⟨key, found⟩ := entry
      by_cases hkey : name = key
      · subst hkey
        simp only [find?, List.lookup_cons_self, Option.some.injEq] at h
        subst h
        simp [modify, find?]
      · have hbeq : (name == key) = false := beq_false_of_ne hkey
        have hbeq' : (key == name) = false := beq_false_of_ne (Ne.symm hkey)
        simp only [find?, List.lookup_cons, hbeq] at h
        simp only [modify, hbeq', find?, Bool.false_eq_true, if_false, List.lookup_cons, hbeq]
        exact ih h

theorem find?_modify_of_ne {name key : String} (hne : key ≠ name) (entries : Entries α)
    (change : α → α) : find? (modify entries name change) key = find? entries key := by
  induction entries with
  | nil => rfl
  | cons entry rest ih =>
      obtain ⟨found, value⟩ := entry
      by_cases hname : found = name
      · subst hname
        have hbeq : (key == found) = false := beq_false_of_ne hne
        simp [modify, find?, List.lookup_cons, hbeq]
      · have hbeq : (found == name) = false := beq_false_of_ne hname
        simp only [find?] at ih
        simp only [modify, hbeq, find?, Bool.false_eq_true, if_false, List.lookup_cons, ih]

end Entries

namespace Json

def modifyChild (segment : String) (change : Json → Json) : Json → Json
  | .object members => .object (Entries.modify members segment change)
  | .array items =>
      .array (items.mapIdx fun index item =>
        if indexText index = segment then change item else item)
  | scalar => scalar

def modifyAt : List String → (Json → Json) → Json → Json
  | [], change => change
  | segment :: path, change => modifyChild segment (modifyAt path change)

def replaceAt (value : Json) (path : List String) (new : Json) : Json :=
  value.modifyAt path fun _ => new

theorem modifyAt_append (first second : List String) (change : Json → Json) (value : Json) :
    value.modifyAt (first ++ second) change = value.modifyAt first (modifyAt second change) := by
  induction first generalizing value with
  | nil => rfl
  | cons segment first ih =>
      have hinner : modifyAt (first ++ second) change = modifyAt first (modifyAt second change) :=
        funext ih
      rw [List.cons_append, modifyAt, modifyAt, hinner]

@[simp] theorem modifyChild_id (segment : String) (value : Json) :
    value.modifyChild segment id = value := by
  cases value with
  | object members => rw [modifyChild, Entries.modify_id]
  | array items =>
      have hsame : (items.mapIdx fun index item =>
          if indexText index = segment then id item else item) = items := by
        apply List.ext_getElem?
        intro index
        simp
      rw [modifyChild, hsame]
  | _ => rfl

@[simp] theorem modifyAt_id (path : List String) (value : Json) :
    value.modifyAt path id = value := by
  induction path generalizing value with
  | nil => rfl
  | cons segment path ih =>
      have hinner : modifyAt path id = id := funext ih
      rw [modifyAt, hinner, modifyChild_id]

theorem isReference_modifyChild (segment : String) (change : Json → Json) (value : Json) :
    isReference (value.modifyChild segment change) = isReference value := by
  cases value with
  | object members =>
      rw [Bool.eq_iff_iff]
      simp only [modifyChild, isReference, Entries.has_eq_true_iff, Entries.names_modify]
  | _ => rfl

theorem modifyChild_indexText (before after : List Json) (item : Json) (change : Json → Json) :
    (array (before ++ item :: after)).modifyChild (indexText before.length) change =
      array (before ++ change item :: after) := by
  rw [modifyChild]
  congr 1
  apply List.ext_getElem?
  intro index
  rw [List.getElem?_mapIdx]
  by_cases hindex : index = before.length
  · subst hindex
    simp
  · have hother : indexText index ≠ indexText before.length := hindex ∘ indexText_injective
    simp only [hother, if_false, Option.map_id_fun']
    grind

end Json

/-! ## Edits keep the keys -/

section

variable {members : Members} {keys : List String} {key : String} {change : Json → Json}

theorem HasExactKeys.modify (h : HasExactKeys members keys) :
    HasExactKeys (Entries.modify members key change) keys := by
  intro other
  rw [Entries.names_modify]
  exact h other

theorem valueAt_modify_self {value : Json} (h : Entries.find? members key = some value) :
    valueAt (Entries.modify members key change) key = change value :=
  valueAt_eq (Entries.find?_modify_self h change)

theorem valueAt_modify_of_ne {other : String} (hne : other ≠ key) :
    valueAt (Entries.modify members key change) other = valueAt members other := by
  rw [valueAt, Entries.find?_modify_of_ne hne, valueAt]

end

/-! ## What is collected around a node -/

def Failures.below (path : List String) (failures : Failures) : Failures :=
  failures.map (Failure.below path)

theorem Failures.withinIndex_eq_below (key : String) (index : Nat) (failures : Failures) :
    failures.withinIndex key index = failures.below [key, indexText index] :=
  List.map_map

@[simp] theorem Failures.below_append (path : List String) (first second : Failures) :
    Failures.below path (first ++ second) = first.below path ++ second.below path :=
  List.map_append

@[simp] theorem Failures.below_below (path path' : List String) (failures : Failures) :
    (failures.below path').below path = failures.below (path ++ path') := by
  simp [Failures.below, Failure.below, Function.comp_def]

@[simp] theorem Failures.below_nil (failures : Failures) : failures.below [] = failures :=
  List.map_id failures

/-- However the inner node is changed, what it gives is collected from the root between the same
failures of other nodes. -/
structure Surrounds (allowance : Nat) (root : Position) (path : List String) (left : Nat)
    (inner : Position) (before after : Failures) : Prop where
  collect_modifyAt : ∀ change : Json → Json,
    collect allowance root.type root.resolved (root.node.modifyAt path change) =
      before ++ ((collect left inner.type inner.resolved (change inner.node)).below path ++ after)
  earlier : ∀ failure ∈ before, Precedes root failure.path path
  later : ∀ failure ∈ after, Precedes root path failure.path

section

variable {collectPart : NodeType → Json → Failures} {members : Members}

private theorem collectField_congr {members' : Members} {field : FieldRule}
    (h : valueAt members' field.key = valueAt members field.key) :
    collectField collectPart members' field = collectField collectPart members field := by
  simp only [collectField, h]

private theorem flatMap_collectField_modify {fields : List FieldRule} {key : String}
    (hne : ∀ field ∈ fields, field.key ≠ key) (change : Json → Json) :
    fields.flatMap (collectField collectPart (Entries.modify members key change)) =
      fields.flatMap (collectField collectPart members) := by
  induction fields with
  | nil => rfl
  | cons field fields ih =>
      obtain ⟨hfield, hfields⟩ := List.forall_mem_cons.mp hne
      rw [List.flatMap_cons, List.flatMap_cons, ih hfields,
        collectField_congr (valueAt_modify_of_ne hfield)]

private theorem flatMap_collectField_modify_field {type : NodeType} {earlier later : List FieldRule}
    {field : FieldRule} (hrule : type.rule = .record (earlier ++ field :: later))
    (change : Json → Json) :
    (earlier ++ field :: later).flatMap
        (collectField collectPart (Entries.modify members field.key change)) =
      earlier.flatMap (collectField collectPart members) ++
        (collectField collectPart (Entries.modify members field.key change) field ++
          later.flatMap (collectField collectPart members)) := by
  have hnodup := NodeType.nodup_keys hrule
  rw [List.map_append, List.map_cons, List.nodup_append, List.nodup_cons] at hnodup
  obtain ⟨-, ⟨hlater, -⟩, hearlier⟩ := hnodup
  have hbefore : ∀ other ∈ earlier, other.key ≠ field.key := by
    intro other hother
    exact hearlier other.key (List.mem_map_of_mem hother) field.key List.mem_cons_self
  have hafter : ∀ other ∈ later, other.key ≠ field.key := by
    intro other hother hkey
    exact hlater (hkey ▸ List.mem_map_of_mem hother)
  rw [List.flatMap_append, List.flatMap_cons, flatMap_collectField_modify hbefore,
    flatMap_collectField_modify hafter]

theorem collectItems_append (key : String) (collectItem : Json → Failures)
    (earlier later : List Json) (item : Json) :
    collectItems key collectItem (earlier ++ item :: later) =
      collectItems key collectItem earlier ++
        ((collectItem item).below [key, indexText earlier.length] ++
          (later.zipIdx (earlier.length + 1)).flatMap fun other =>
            (collectItem other.1).withinIndex key other.2) := by
  rw [← Failures.withinIndex_eq_below]
  simp [collectItems, List.zipIdx_append]

private theorem exists_place_of_mem_collectItems {key : String} {collectItem : Json → Failures}
    {items : List Json} {failure : Failure ErrorCode}
    (h : failure ∈ collectItems key collectItem items) :
    ∃ place < items.length, ∃ path, failure.path = key :: indexText place :: path := by
  obtain ⟨index, item, inner, hitem, -, rfl⟩ := mem_collectItems h
  exact ⟨index, (List.getElem?_eq_some_iff.mp hitem).1, inner.path, rfl⟩

end

section

variable {type : NodeType} {resolved : Bool} {earlier later : List FieldRule}
  {field : FieldRule} {members : Members} (allowance : Nat)
  (hrule : type.rule = .record (earlier ++ field :: later))
  (hclosed : type.allowsReference resolved = false)
  (hkeys : HasExactKeys members ((earlier ++ field :: later).map FieldRule.key))

include hrule hclosed

theorem precedes_of_mem_earlier {collectPart : NodeType → Json → Failures} {node : Json}
    {failure : Failure ErrorCode} (path : List String)
    (h : failure ∈ earlier.flatMap (collectField collectPart members)) :
    Precedes ⟨type, resolved, node⟩ failure.path (field.key :: path) := by
  obtain ⟨other, hother, hfailure⟩ := List.mem_flatMap.mp h
  obtain ⟨path', hpath'⟩ := exists_path_of_mem_collectField hfailure
  have horder := (List.pairwise_append.mp (NodeType.pairwise_precedes hrule hclosed node)).2.2
  rw [hpath']
  exact horder other hother field List.mem_cons_self path' path

theorem precedes_of_mem_later {collectPart : NodeType → Json → Failures} {node : Json}
    {failure : Failure ErrorCode} (path : List String)
    (h : failure ∈ later.flatMap (collectField collectPart members)) :
    Precedes ⟨type, resolved, node⟩ (field.key :: path) failure.path := by
  obtain ⟨other, hother, hfailure⟩ := List.mem_flatMap.mp h
  obtain ⟨path', hpath'⟩ := exists_path_of_mem_collectField hfailure
  have horder := (List.pairwise_append.mp (NodeType.pairwise_precedes hrule hclosed node)).2.1
  rw [hpath']
  exact (List.pairwise_cons.mp horder).1 other hother path path'

include hkeys

theorem collect_modify_field (change : Json → Json) :
    collect (allowance + 1) type resolved (.object (Entries.modify members field.key change)) =
      earlier.flatMap (collectField (fun part => collect allowance part false) members) ++
        (collectField (fun part => collect allowance part false)
            (Entries.modify members field.key change) field ++
          later.flatMap (collectField (fun part => collect allowance part false) members)) := by
  rw [collect_fields allowance hrule hclosed hkeys.modify]
  exact flatMap_collectField_modify_field hrule change

private theorem surrounds_field {value : Json} (hsingle : field.isList = false)
    (hvalue : Entries.find? members field.key = some value) :
    ∃ before after, Surrounds (allowance + 1) ⟨type, resolved, .object members⟩ [field.key]
      allowance ⟨field.type, false, value⟩ before after := by
  refine ⟨earlier.flatMap (collectField (fun part => collect allowance part false) members),
    later.flatMap (collectField (fun part => collect allowance part false) members), ?_, ?_, ?_⟩
  · intro change
    have hrecord := collect_modify_field allowance hrule hclosed hkeys change
    simp only [collectField, hsingle, valueAt_modify_self hvalue] at hrecord
    exact hrecord
  · intro failure hfailure
    exact precedes_of_mem_earlier hrule hclosed [] hfailure
  · intro failure hfailure
    exact precedes_of_mem_later hrule hclosed [] hfailure

private theorem surrounds_element {before after : List Json} {item : Json}
    (hlist : field.isList = true)
    (hvalue : Entries.find? members field.key = some (.array (before ++ item :: after))) :
    ∃ others others', Surrounds (allowance + 1) ⟨type, resolved, .object members⟩
      [field.key, indexText before.length] allowance ⟨field.type, false, item⟩ others others' := by
  have hfield : field ∈ earlier ++ field :: later := by simp
  refine ⟨earlier.flatMap (collectField (fun part => collect allowance part false) members) ++
      collectItems field.key (collect allowance field.type false) before,
    ((after.zipIdx (before.length + 1)).flatMap fun other =>
      (collect allowance field.type false other.1).withinIndex field.key other.2) ++
      later.flatMap (collectField (fun part => collect allowance part false) members), ?_, ?_, ?_⟩
  · intro change
    have hrecord := collect_modify_field allowance hrule hclosed hkeys
      (Json.modifyChild (indexText before.length) change)
    have hitems : collectField (fun part => collect allowance part false)
        (Entries.modify members field.key (Json.modifyChild (indexText before.length) change))
        field = collectItems field.key (collect allowance field.type false)
          (before ++ change item :: after) := by
      simp only [collectField, hlist, valueAt_modify_self hvalue, Json.modifyChild_indexText]
      rfl
    rw [hitems, collectItems_append] at hrecord
    simp only [List.append_assoc] at hrecord ⊢
    exact hrecord
  · intro failure hfailure
    rcases List.mem_append.mp hfailure with hother | hitem
    · exact precedes_of_mem_earlier hrule hclosed _ hother
    · obtain ⟨place, hplace, path, hpath⟩ := exists_place_of_mem_collectItems hitem
      rw [hpath]
      exact .elements hrule hclosed hfield hlist hplace path []
  · intro failure hfailure
    rcases List.mem_append.mp hfailure with hitem | hother
    · obtain ⟨⟨other, place⟩, hother, hinner⟩ := List.mem_flatMap.mp hitem
      obtain ⟨path, hpath⟩ := exists_path_of_mem_withinIndex hinner
      have hplace : before.length + 1 ≤ place := List.le_snd_of_mem_zipIdx hother
      rw [hpath]
      exact .elements hrule hclosed hfield hlist hplace [] path
    · exact precedes_of_mem_later hrule hclosed _ hother

end

theorem exists_append_of_getElem? {α : Type} {items : List α} {index : Nat} {item : α}
    (h : items[index]? = some item) :
    ∃ before after, items = before ++ item :: after ∧ before.length = index := by
  obtain ⟨hindex, rfl⟩ := List.getElem?_eq_some_iff.mp h
  refine ⟨items.take index, items.drop (index + 1), ?_,
    List.length_take_of_le (Nat.le_of_lt hindex)⟩
  rw [← List.drop_eq_getElem_cons hindex, List.take_append_drop]

/-- Every step but that to the same node leads to a part that may be changed alone. -/
theorem Step.exists_surrounds {first second : Position} {segments : List String}
    (h : Step first segments second) (hne : segments ≠ []) (allowance : Nat) :
    ∃ before after, Surrounds (allowance + 1) first segments allowance second before after := by
  cases h with
  | direct => exact absurd rfl hne
  | bound hvariable hkeys hflag hindex =>
      refine ⟨[], [], ?_, List.forall_mem_nil _, List.forall_mem_nil _⟩
      intro change
      have hother : referenceFlagKey ≠ referenceKey := by decide
      rw [← Entries.find?_modify_of_ne hother] at hflag
      have hchanged := Entries.find?_modify_self hindex change
      rw [List.nil_append, List.append_nil]
      exact collect_bound allowance hvariable hkeys.modify hflag hchanged
  | inlined hvariable hkeys hflag hnot hcontent =>
      refine ⟨[], [], ?_, List.forall_mem_nil _, List.forall_mem_nil _⟩
      intro change
      have hother : referenceFlagKey ≠ referenceKey := by decide
      rw [← Entries.find?_modify_of_ne hother] at hflag
      have hchanged := Entries.find?_modify_self hcontent change
      rw [List.nil_append, List.append_nil]
      exact collect_inlined allowance hvariable hkeys.modify hflag hnot hchanged
  | payload hrule hclosed hkeys hallowed htag hcontent =>
      refine ⟨[], [], ?_, List.forall_mem_nil _, List.forall_mem_nil _⟩
      intro change
      have hother : tagKey ≠ payloadKey := by decide
      rw [← Entries.find?_modify_of_ne hother] at htag
      have hchanged := Entries.find?_modify_self hcontent change
      rw [List.nil_append, List.append_nil]
      exact collect_payload allowance hrule hclosed hkeys.modify hallowed htag hchanged
  | field hrule hclosed hkeys hfield hsingle hvalue =>
      obtain ⟨earlier, later, rfl⟩ := List.append_of_mem hfield
      exact surrounds_field allowance hrule hclosed hkeys hsingle hvalue
  | element hrule hclosed hkeys hfield hlist hvalue hitem =>
      obtain ⟨earlier, later, rfl⟩ := List.append_of_mem hfield
      obtain ⟨before, after, rfl, rfl⟩ := exists_append_of_getElem? hitem
      exact surrounds_element allowance hrule hclosed hkeys hlist hvalue

/-! ## Around any value -/

/-- However the value at the path is changed, what is found in it is collected from the root between
the same failures of other parts. -/
structure Encloses (allowance : Nat) (root : Position) (path : List String)
    (found : (Json → Json) → Failures) (before after : Failures) : Prop where
  collect_modifyAt : ∀ change : Json → Json,
    collect allowance root.type root.resolved (root.node.modifyAt path change) =
      before ++ (found change ++ after)
  inside : ∀ change, ∀ failure ∈ found change, path <+: failure.path
  earlier : ∀ failure ∈ before, Precedes root failure.path path
  later : ∀ failure ∈ after, Precedes root path failure.path

theorem Failures.prefix_of_mem_below {failures : Failures} {path : List String}
    {failure : Failure ErrorCode} (h : failure ∈ failures.below path) : path <+: failure.path := by
  obtain ⟨inner, -, rfl⟩ := List.mem_map.mp h
  exact List.prefix_append path inner.path

theorem Surrounds.encloses {allowance left : Nat} {root inner : Position} {path : List String}
    {before after : Failures} (h : Surrounds allowance root path left inner before after) :
    Encloses allowance root path
      (fun change => (collect left inner.type inner.resolved (change inner.node)).below path)
      before after where
  collect_modifyAt := h.collect_modifyAt
  inside _ _ hfailure := Failures.prefix_of_mem_below hfailure
  earlier := h.earlier
  later := h.later

theorem Encloses.surrounds {allowance left : Nat} {root inner : Position} {path : List String}
    {before after : Failures}
    (h : Encloses allowance root path
      (fun change => (collect left inner.type inner.resolved (change inner.node)).below path)
      before after) :
    Surrounds allowance root path left inner before after where
  collect_modifyAt := h.collect_modifyAt
  earlier := h.earlier
  later := h.later

theorem encloses_field {type : NodeType} {resolved : Bool} {fields : List FieldRule}
    {field : FieldRule} {members : Members} (allowance : Nat) (hrule : type.rule = .record fields)
    (hclosed : type.allowsReference resolved = false)
    (hkeys : HasExactKeys members (fields.map FieldRule.key)) (hfield : field ∈ fields) :
    ∃ before after, Encloses (allowance + 1) ⟨type, resolved, .object members⟩ [field.key]
      (fun change => collectField (fun part => collect allowance part false)
        (Entries.modify members field.key change) field) before after := by
  obtain ⟨earlier, later, rfl⟩ := List.append_of_mem hfield
  refine ⟨earlier.flatMap (collectField (fun part => collect allowance part false) members),
    later.flatMap (collectField (fun part => collect allowance part false) members), ?_⟩
  constructor
  · exact collect_modify_field allowance hrule hclosed hkeys
  · intro change failure hfailure
    obtain ⟨path, hpath⟩ := exists_path_of_mem_collectField hfailure
    rw [hpath]
    exact List.prefix_append [field.key] path
  · intro failure hfailure
    exact precedes_of_mem_earlier hrule hclosed [] hfailure
  · intro failure hfailure
    exact precedes_of_mem_later hrule hclosed [] hfailure

namespace Encloses

variable {allowance : Nat} {first second : Position} {segments path : List String}
  {found : (Json → Json) → Failures} {before after before' after' : Failures}

theorem direct {type : NodeType} {node : Json} (hvariable : type.isVariable = true)
    (hnode : isReference node = false) (hne : path ≠ [])
    (h : Encloses allowance ⟨type, true, node⟩ path found before after) :
    Encloses (allowance + 1) ⟨type, false, node⟩ path found before after := by
  have hstep := Step.direct hvariable hnode
  constructor
  · intro change
    obtain ⟨segment, rest, rfl⟩ := List.exists_cons_of_ne_nil hne
    have hother : isReference (node.modifyAt (segment :: rest) change) = false := by
      rw [Json.modifyAt, Json.isReference_modifyChild, hnode]
    rw [← h.collect_modifyAt change]
    exact collect_direct allowance hvariable hother
  · exact h.inside
  · intro failure hfailure
    exact .inside hstep (h.earlier failure hfailure)
  · intro failure hfailure
    exact .inside hstep (h.later failure hfailure)

theorem below {middle : Nat} (hstep : Step first segments second)
    (houter : Surrounds allowance first segments middle second before after)
    (hinner : Encloses middle second path found before' after') :
    Encloses allowance first (segments ++ path) (fun change => (found change).below segments)
      (before ++ before'.below segments) (after'.below segments ++ after) := by
  constructor
  · intro change
    rw [Json.modifyAt_append, houter.collect_modifyAt, hinner.collect_modifyAt]
    simp only [Failures.below_append, List.append_assoc]
  · intro change failure hfailure
    obtain ⟨inner, hmem, rfl⟩ := List.mem_map.mp hfailure
    exact (List.prefix_append_right_inj segments).mpr (hinner.inside change inner hmem)
  · intro failure hfailure
    rcases List.mem_append.mp hfailure with houtside | hinside
    · exact (houter.earlier failure houtside).of_longer List.prefix_rfl (List.prefix_append _ _)
    · obtain ⟨inner, hmem, rfl⟩ := List.mem_map.mp hinside
      exact .inside hstep (hinner.earlier inner hmem)
  · intro failure hfailure
    rcases List.mem_append.mp hfailure with hinside | houtside
    · obtain ⟨inner, hmem, rfl⟩ := List.mem_map.mp hinside
      exact .inside hstep (hinner.later inner hmem)
    · exact (houter.later failure houtside).of_longer (List.prefix_append _ _) List.prefix_rfl

end Encloses

/-! ## Around a reached position -/

namespace Surrounds

variable {allowance middle left : Nat} {first second last : Position}
  {segments path : List String} {before after before' after' : Failures}

theorem collect_root (h : Surrounds allowance first path left last before after) :
    collect allowance first.type first.resolved first.node =
      before ++ ((collect left last.type last.resolved last.node).below path ++ after) := by
  have hsame := h.collect_modifyAt id
  rw [Json.modifyAt_id] at hsame
  exact hsame

theorem refl (left : Nat) (position : Position) :
    Surrounds left position [] left position [] [] := by
  refine ⟨?_, List.forall_mem_nil _, List.forall_mem_nil _⟩
  intro change
  rw [Failures.below_nil, List.nil_append, List.append_nil]
  rfl

theorem direct {type : NodeType} {node : Json} (hvariable : type.isVariable = true)
    (hnode : isReference node = false) (hne : path ≠ [])
    (h : Surrounds allowance ⟨type, true, node⟩ path left last before after) :
    Surrounds (allowance + 1) ⟨type, false, node⟩ path left last before after :=
  (h.encloses.direct hvariable hnode hne).surrounds

theorem trans (hstep : Step first segments second)
    (houter : Surrounds allowance first segments middle second before after)
    (hinner : Surrounds middle second path left last before' after') :
    Surrounds allowance first (segments ++ path) left last (before ++ before'.below segments)
      (after'.below segments ++ after) := by
  have hbelow := hinner.encloses.below hstep houter
  simp only [Failures.below_below] at hbelow
  exact hbelow.surrounds

end Surrounds

/-- The position that the fewest steps of a path lead to may be changed alone. -/
theorem Reaches.exists_surrounds {first last : Position} {path : List String} {steps : Nat}
    (h : Reaches first path steps last)
    (hfewest : ∀ other steps', Reaches first path steps' other → steps ≤ steps') (left : Nat) :
    ∃ before after, Surrounds (left + steps) first path left last before after := by
  induction h with
  | refl position => exact ⟨[], [], .refl left position⟩
  | @step first second last segments path steps hstep hrest ih =>
      have hinner : ∀ other steps', Reaches second path steps' other → steps ≤ steps' := by
        intro other steps' hother
        exact Nat.le_of_succ_le_succ (hfewest other (steps' + 1) (.step hstep hother))
      obtain ⟨before, after, hsurrounds⟩ := ih hinner
      -- A step to the same node cannot be the last one, for its start is reached in fewer steps.
      by_cases hsegments : segments = []
      · have hpath : path ≠ [] := by
          rintro rfl
          subst hsegments
          have hnone := hfewest first 0 (.refl first)
          omega
        cases hstep with
        | direct hvariable hnode => exact ⟨before, after, hsurrounds.direct hvariable hnode hpath⟩
        | _ => cases hsegments
      · obtain ⟨others, others', houter⟩ := hstep.exists_surrounds hsegments (left + steps)
        exact ⟨_, _, houter.trans hstep hsurrounds⟩

/-- A part of a node may be changed alone wherever the node is reached. -/
theorem Reaches.exists_encloses {first last : Position} {path inner : List String}
    {steps left : Nat} {found : (Json → Json) → Failures} {before after : Failures}
    (h : Reaches first path steps last) (hne : inner ≠ [])
    (hinner : Encloses left last inner found before after) :
    ∃ before' after', Encloses (left + steps) first (path ++ inner)
      (fun change => (found change).below path) before' after' := by
  induction h with
  | refl position =>
      refine ⟨before, after, ?_⟩
      simp only [Failures.below_nil]
      exact hinner
  | @step first second last segments path steps hstep hrest ih =>
      obtain ⟨before', after', hencloses⟩ := ih hinner
      by_cases hsegments : segments = []
      · subst hsegments
        have hpath : path ++ inner ≠ [] := List.append_ne_nil_of_right_ne_nil path hne
        cases hstep with
        | direct hvariable hnode => exact ⟨before', after', hencloses.direct hvariable hnode hpath⟩
      · obtain ⟨others, others', houter⟩ := hstep.exists_surrounds hsegments (left + steps)
        have hbelow := hencloses.below hstep houter
        simp only [Failures.below_below, ← List.append_assoc] at hbelow
        exact ⟨_, _, hbelow⟩

/-! ## The changed node stands at the path -/

theorem Json.Leads.follow?_modifyAt {first second : Json} {trail : List Json.Branch}
    (h : Json.Leads first trail second) (haddressable : first.Addressable)
    (change : Json → Json) :
    (first.modifyAt (trail.map Json.Branch.text) change).follow? (trail.map Json.Branch.text) =
      some (change second) := by
  induction h with
  | here value => rfl
  | key hchild hrest ih =>
      rw [List.map_cons, Json.Branch.text, Json.modifyAt, Json.modifyChild, Json.follow?_cons,
        Json.follow?_key (Entries.find?_modify_self hchild _), Option.bind_some]
      exact ih (haddressable.find? hchild)
  | element hchild hrest ih =>
      have hbelow := ih (haddressable.getElem? hchild)
      have hlength := haddressable.1
      obtain ⟨before, after, rfl, rfl⟩ := exists_append_of_getElem? hchild
      rw [List.map_cons, Json.Branch.text, Json.modifyAt, Json.modifyChild_indexText,
        Json.follow?_cons]
      refine Option.bind_eq_some_iff.mpr ⟨_, ?_, hbelow⟩
      apply Json.follow?_indexText
      · simpa using hlength
      · simp

theorem Reaches.follow?_modifyAt {first last : Position} {path : List String} {steps : Nat}
    (h : Reaches first path steps last) (haddressable : first.node.Addressable)
    (change : Json → Json) :
    (first.node.modifyAt path change).follow? path = some (change last.node) := by
  obtain ⟨trail, rfl, hleads⟩ := h.leads
  exact hleads.follow?_modifyAt haddressable change

end TreeSyntax
