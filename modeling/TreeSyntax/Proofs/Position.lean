import Mathlib.Data.List.Nodup
import TreeSyntax.Proofs.Trail

/-!
# Positions and grammar steps

A position is a node together with what is expected of it.  One grammar step leads from a position
to a part of its node, or to the same node once it is known to stand for itself.  The segments of
the steps lead from node to node, and they tell which steps were taken.
-/

namespace TreeSyntax

structure Position where
  type : NodeType
  resolved : Bool
  node : Json

/-! ## Steps -/

namespace Reference

def segments : Reference → List String
  | .direct _ => []
  | .bound _ => [referenceKey]
  | .inlined _ => [referenceKey]

def target (type : NodeType) : Reference → Position
  | .direct node => ⟨type, true, node⟩
  | .bound index => ⟨.integerLiteral, false, index⟩
  | .inlined node => ⟨type, true, node⟩

end Reference

/-- One grammar step and the segments that it adds to the path. -/
inductive Step : Position → List String → Position → Prop
  | direct {type : NodeType} {node : Json} (hvariable : type.isVariable = true)
      (hnode : isReference node = false) :
      Step ⟨type, false, node⟩ [] ⟨type, true, node⟩
  | bound {type : NodeType} {members : Members} {index : Json}
      (hvariable : type.isVariable = true) (hkeys : HasExactKeys members referenceKeys)
      (hflag : Entries.find? members referenceFlagKey = some (.string "true"))
      (hindex : Entries.find? members referenceKey = some index) :
      Step ⟨type, false, .object members⟩ [referenceKey] ⟨.integerLiteral, false, index⟩
  | inlined {type : NodeType} {members : Members} {flag content : Json}
      (hvariable : type.isVariable = true) (hkeys : HasExactKeys members referenceKeys)
      (hflag : Entries.find? members referenceFlagKey = some flag) (hother : flag ≠ .string "true")
      (hcontent : Entries.find? members referenceKey = some content) :
      Step ⟨type, false, .object members⟩ [referenceKey] ⟨type, true, content⟩
  | payload {type tag : NodeType} {resolved : Bool} {tags : List NodeType} {members : Members}
      {content : Json} (hrule : type.rule = .union tags)
      (hclosed : type.allowsReference resolved = false)
      (hkeys : HasExactKeys members taggedKeys) (hallowed : tag ∈ tags)
      (htag : Entries.find? members tagKey = some (.string tag.name))
      (hcontent : Entries.find? members payloadKey = some content) :
      Step ⟨type, resolved, .object members⟩ [payloadKey] ⟨tag, false, content⟩
  | field {type : NodeType} {resolved : Bool} {fields : List FieldRule} {members : Members}
      {field : FieldRule} {value : Json} (hrule : type.rule = .record fields)
      (hclosed : type.allowsReference resolved = false)
      (hkeys : HasExactKeys members (fields.map FieldRule.key)) (hfield : field ∈ fields)
      (hsingle : field.isList = false)
      (hvalue : Entries.find? members field.key = some value) :
      Step ⟨type, resolved, .object members⟩ [field.key] ⟨field.type, false, value⟩
  | element {type : NodeType} {resolved : Bool} {fields : List FieldRule} {members : Members}
      {field : FieldRule} {items : List Json} {index : Nat} {item : Json}
      (hrule : type.rule = .record fields) (hclosed : type.allowsReference resolved = false)
      (hkeys : HasExactKeys members (fields.map FieldRule.key)) (hfield : field ∈ fields)
      (hlist : field.isList = true)
      (hvalue : Entries.find? members field.key = some (.array items))
      (hitem : items[index]? = some item) :
      Step ⟨type, resolved, .object members⟩ [field.key, indexText index]
        ⟨field.type, false, item⟩

namespace Step

variable {type : NodeType} {resolved : Bool} {members : Members}

theorem of_referenceKeys (hvariable : type.isVariable = true)
    (hkeys : HasExactKeys members referenceKeys) :
    Step ⟨type, false, .object members⟩ [referenceKey]
      (if (valueAt members referenceFlagKey).text? = some "true"
        then ⟨.integerLiteral, false, valueAt members referenceKey⟩
        else ⟨type, true, valueAt members referenceKey⟩) := by
  have hflag := find?_eq_valueAt ((hkeys referenceFlagKey).mpr (by decide))
  have hcontent := find?_eq_valueAt ((hkeys referenceKey).mpr (by decide))
  by_cases htrue : (valueAt members referenceFlagKey).text? = some "true"
  · rw [if_pos htrue]
    rw [Json.text?_eq_some_iff.mp htrue] at hflag
    exact .bound hvariable hkeys hflag hcontent
  · rw [if_neg htrue]
    exact .inlined hvariable hkeys hflag (htrue ∘ Json.text?_eq_some_iff.mpr) hcontent

theorem of_reference {node : Json} {reference : Reference} (hvariable : type.isVariable = true)
    (h : Reference.ofNode node = .ok reference) :
    Step ⟨type, false, node⟩ reference.segments (reference.target type) := by
  rcases Reference.ofNode_cases node with
    ⟨href, hdirect⟩ | ⟨members, rfl, hkeys, hok⟩ | ⟨reason, -, -, hfail⟩
  · obtain rfl := Except.ok.inj (hdirect.symm.trans h)
    exact .direct hvariable href
  · obtain rfl := Except.ok.inj (hok.symm.trans h)
    have hstep := of_referenceKeys hvariable hkeys
    by_cases htrue : (valueAt members referenceFlagKey).text? = some "true"
    · rw [if_pos htrue] at hstep ⊢
      exact hstep
    · rw [if_neg htrue] at hstep ⊢
      exact hstep
  · cases hfail.symm.trans h

theorem of_allowedTag? {tags : List NodeType} {tag : NodeType}
    (hrule : type.rule = .union tags) (hclosed : type.allowsReference resolved = false)
    (hkeys : HasExactKeys members taggedKeys)
    (hallowed : allowedTag? tags (valueAt members tagKey).text? = some tag) :
    Step ⟨type, resolved, .object members⟩ [payloadKey]
      ⟨tag, false, valueAt members payloadKey⟩ := by
  have htag := find?_eq_valueAt ((hkeys tagKey).mpr (by decide))
  have hcontent := find?_eq_valueAt ((hkeys payloadKey).mpr (by decide))
  obtain ⟨hin, hname⟩ := allowedTag?_eq_some_iff.mp hallowed
  rw [Json.text?_eq_some_iff.mp hname] at htag
  exact .payload hrule hclosed hkeys hin htag hcontent

section

variable {fields : List FieldRule} {field : FieldRule} (hrule : type.rule = .record fields)
  (hclosed : type.allowsReference resolved = false)
  (hkeys : HasExactKeys members (fields.map FieldRule.key)) (hfield : field ∈ fields)

include hrule hclosed hkeys hfield

theorem of_field (hsingle : field.isList = false) :
    Step ⟨type, resolved, .object members⟩ [field.key]
      ⟨field.type, false, valueAt members field.key⟩ :=
  .field hrule hclosed hkeys hfield hsingle
    (find?_eq_valueAt ((hkeys field.key).mpr (List.mem_map_of_mem hfield)))

theorem of_element {items : List Json} {index : Nat} {item : Json} (hlist : field.isList = true)
    (hvalue : valueAt members field.key = .array items) (hitem : items[index]? = some item) :
    Step ⟨type, resolved, .object members⟩ [field.key, indexText index]
      ⟨field.type, false, item⟩ :=
  .element hrule hclosed hkeys hfield hlist
    (hvalue ▸ find?_eq_valueAt ((hkeys field.key).mpr (List.mem_map_of_mem hfield))) hitem

end

end Step

inductive Reaches : Position → List String → Nat → Position → Prop
  | refl (position : Position) : Reaches position [] 0 position
  | step {first second last : Position} {segments path : List String} {steps : Nat}
      (hstep : Step first segments second) (hrest : Reaches second path steps last) :
      Reaches first (segments ++ path) (steps + 1) last

/-! ## Paths lead to nodes -/

theorem Step.leads {first second : Position} {segments : List String}
    (h : Step first segments second) :
    ∃ trail, segments = trail.map Json.Branch.text ∧
      Json.Leads first.node trail second.node := by
  cases h with
  | direct hvariable hnode => exact ⟨[], rfl, .here _⟩
  | bound hvariable hkeys hflag hindex =>
      exact ⟨[.key referenceKey], rfl, .key hindex (.here _)⟩
  | inlined hvariable hkeys hflag hother hcontent =>
      exact ⟨[.key referenceKey], rfl, .key hcontent (.here _)⟩
  | payload hrule hclosed hkeys hallowed htag hcontent =>
      exact ⟨[.key payloadKey], rfl, .key hcontent (.here _)⟩
  | field hrule hclosed hkeys hfield hsingle hvalue =>
      exact ⟨[.key _], rfl, .key hvalue (.here _)⟩
  | element hrule hclosed hkeys hfield hlist hvalue hitem =>
      exact ⟨[.key _, .element _], rfl, .key hvalue (.element hitem (.here _))⟩

theorem Reaches.leads {first last : Position} {path : List String} {steps : Nat}
    (h : Reaches first path steps last) :
    ∃ trail, path = trail.map Json.Branch.text ∧ Json.Leads first.node trail last.node := by
  induction h with
  | refl position => exact ⟨[], rfl, .here _⟩
  | step hstep hrest ih =>
      obtain ⟨trail, rfl, hleads⟩ := hstep.leads
      obtain ⟨more, rfl, hmore⟩ := ih
      exact ⟨trail ++ more, List.map_append.symm, hleads.append hmore⟩

theorem Reaches.follow? {first last : Position} {path : List String} {steps : Nat}
    (h : Reaches first path steps last) (haddressable : first.node.Addressable) :
    first.node.follow? path = some last.node := by
  obtain ⟨trail, rfl, hleads⟩ := h.leads
  exact hleads.follow? haddressable

/-! ## A path reaches one type -/

theorem NodeType.nodup_keys {type : NodeType} {fields : List FieldRule}
    (hrule : type.rule = .record fields) : (fields.map FieldRule.key).Nodup := by
  cases type <;> simp only [rule, Rule.record.injEq, reduceCtorEq] at hrule <;>
    subst hrule <;> decide

theorem NodeType.field_eq_of_key_eq {type : NodeType} {fields fields' : List FieldRule}
    (hrule : type.rule = .record fields) (hrule' : type.rule = .record fields')
    {first second : FieldRule} (hfirst : first ∈ fields) (hsecond : second ∈ fields')
    (hkey : first.key = second.key) : first = second := by
  obtain rfl := Rule.record.inj (hrule.symm.trans hrule')
  exact List.inj_on_of_nodup_map (nodup_keys hrule) hfirst hsecond hkey

private theorem absurd_of_open {type : NodeType} (hvariable : type.isVariable = true)
    (hclosed : type.allowsReference false = false) : False := by
  simp [NodeType.allowsReference, hvariable] at hclosed

/-- Of all steps from a position, the path tells which one was taken. -/
theorem Step.determined {position first second : Position}
    {segments segments' path path' : List String} (h : Step position segments first)
    (h' : Step position segments' second) (hpath : segments ++ path = segments' ++ path') :
    segments = segments' ∧ first = second := by
  cases h with
  | direct hvariable hnode =>
      cases h' with
      | direct => exact ⟨rfl, rfl⟩
      | bound _ hkeys | inlined _ hkeys => simp [isReference_of_exactKeys hkeys] at hnode
      | payload _ hclosed | field _ hclosed | element _ hclosed =>
          exact (absurd_of_open hvariable hclosed).elim
  | bound hvariable hkeys hflag hindex =>
      cases h' with
      | direct _ hnode => simp [isReference_of_exactKeys hkeys] at hnode
      | bound _ _ _ hindex' =>
          obtain rfl := Option.some.inj (hindex.symm.trans hindex')
          exact ⟨rfl, rfl⟩
      | inlined _ _ hflag' hother =>
          exact absurd (Option.some.inj (hflag'.symm.trans hflag)) hother
      | payload _ hclosed | field _ hclosed | element _ hclosed =>
          exact (absurd_of_open hvariable hclosed).elim
  | inlined hvariable hkeys hflag hother hcontent =>
      cases h' with
      | direct _ hnode => simp [isReference_of_exactKeys hkeys] at hnode
      | bound _ _ hflag' => exact absurd (Option.some.inj (hflag.symm.trans hflag')) hother
      | inlined _ _ _ _ hcontent' =>
          obtain rfl := Option.some.inj (hcontent.symm.trans hcontent')
          exact ⟨rfl, rfl⟩
      | payload _ hclosed | field _ hclosed | element _ hclosed =>
          exact (absurd_of_open hvariable hclosed).elim
  | payload hrule hclosed hkeys hallowed htag hcontent =>
      cases h' with
      | direct hvariable | bound hvariable | inlined hvariable =>
          exact (absurd_of_open hvariable hclosed).elim
      | payload _ _ _ _ htag' hcontent' =>
          obtain rfl := Option.some.inj (hcontent.symm.trans hcontent')
          have hname := Json.string.inj (Option.some.inj (htag.symm.trans htag'))
          obtain rfl := NodeType.name_injective hname
          exact ⟨rfl, rfl⟩
      | field hrule' | element hrule' =>
          rw [hrule] at hrule'
          cases hrule'
  | field hrule hclosed hkeys hfield hsingle hvalue =>
      cases h' with
      | direct hvariable | bound hvariable | inlined hvariable =>
          exact (absurd_of_open hvariable hclosed).elim
      | payload hrule' =>
          rw [hrule] at hrule'
          cases hrule'
      | field hrule' _ _ hfield' _ hvalue' =>
          obtain ⟨hkey, hrest⟩ := List.cons.inj hpath
          obtain rfl := NodeType.field_eq_of_key_eq hrule hrule' hfield hfield' hkey
          obtain rfl := Option.some.inj (hvalue.symm.trans hvalue')
          exact ⟨rfl, rfl⟩
      | element hrule' _ _ hfield' hlist =>
          obtain ⟨hkey, hrest⟩ := List.cons.inj hpath
          obtain rfl := NodeType.field_eq_of_key_eq hrule hrule' hfield hfield' hkey
          simp [hsingle] at hlist
  | element hrule hclosed hkeys hfield hlist hvalue hitem =>
      cases h' with
      | direct hvariable | bound hvariable | inlined hvariable =>
          exact (absurd_of_open hvariable hclosed).elim
      | payload hrule' =>
          rw [hrule] at hrule'
          cases hrule'
      | field hrule' _ _ hfield' hsingle =>
          obtain ⟨hkey, hrest⟩ := List.cons.inj hpath
          obtain rfl := NodeType.field_eq_of_key_eq hrule hrule' hfield hfield' hkey
          simp [hsingle] at hlist
      | element hrule' _ _ hfield' _ hvalue' hitem' =>
          obtain ⟨hkey, hrest⟩ := List.cons.inj hpath
          obtain rfl := NodeType.field_eq_of_key_eq hrule hrule' hfield hfield' hkey
          obtain rfl := Json.array.inj (Option.some.inj (hvalue.symm.trans hvalue'))
          obtain rfl := indexText_injective (List.cons.inj hrest).1
          obtain rfl := Option.some.inj (hitem.symm.trans hitem')
          exact ⟨rfl, rfl⟩

theorem reaches_cases {first last : Position} {path : List String} {steps : Nat}
    (h : Reaches first path steps last) :
    (path = [] ∧ steps = 0 ∧ last = first) ∨
    ∃ segments second rest steps', path = segments ++ rest ∧ steps = steps' + 1 ∧
      Step first segments second ∧ Reaches second rest steps' last := by
  cases h with
  | refl => exact .inl ⟨rfl, rfl, rfl⟩
  | step hstep hrest => exact .inr ⟨_, _, _, _, rfl, rfl, hstep, hrest⟩

/-- Only a step that follows no reference adds nothing to the path. -/
theorem Step.same_of_nil {first second : Position} {segments : List String}
    (h : Step first segments second) (hnil : segments = []) :
    second.type = first.type ∧ second.node = first.node := by
  cases h with
  | direct => exact ⟨rfl, rfl⟩
  | _ => cases hnil

theorem Reaches.same_of_nil {first last : Position} {path : List String} {steps : Nat}
    (h : Reaches first path steps last) (hnil : path = []) :
    last.type = first.type ∧ last.node = first.node := by
  induction h with
  | refl => exact ⟨rfl, rfl⟩
  | step hstep hrest ih =>
      obtain ⟨hsegments, hpath⟩ := List.append_eq_nil_iff.mp hnil
      obtain ⟨htype, hnode⟩ := hstep.same_of_nil hsegments
      obtain ⟨htype', hnode'⟩ := ih hpath
      exact ⟨htype'.trans htype, hnode'.trans hnode⟩

theorem Reaches.type_unique {root first second : Position} {path : List String}
    {steps steps' : Nat} (h : Reaches root path steps first)
    (h' : Reaches root path steps' second) :
    first.type = second.type ∧ first.node = second.node := by
  induction h generalizing steps' second with
  | refl =>
      obtain ⟨htype, hnode⟩ := h'.same_of_nil rfl
      exact ⟨htype.symm, hnode.symm⟩
  | step hstep hrest ih =>
      rcases reaches_cases h' with
        ⟨hnil, -, rfl⟩ | ⟨segments, next, rest, _, hpath, -, hstep', hrest'⟩
      · exact (Reaches.step hstep hrest).same_of_nil hnil
      · obtain ⟨rfl, rfl⟩ := hstep.determined hstep' hpath
        obtain rfl := List.append_cancel_left hpath
        exact ih hrest'

/-! ## The first position at a path -/

theorem Step.resolved_of_nil {first second : Position} {segments : List String}
    (h : Step first segments second) (hnil : segments = []) : second.resolved = true := by
  cases h with
  | direct => rfl
  | _ => cases hnil

theorem Reaches.eq_or_resolved_of_nil {first last : Position} {path : List String} {steps : Nat}
    (h : Reaches first path steps last) (hnil : path = []) :
    last = first ∨ last.resolved = true := by
  induction h with
  | refl => exact .inl rfl
  | step hstep hrest ih =>
      obtain ⟨hsegments, hpath⟩ := List.append_eq_nil_iff.mp hnil
      rcases ih hpath with rfl | hresolved
      · exact .inr (hstep.resolved_of_nil hsegments)
      · exact .inr hresolved

/-- No other position at the path is reached in fewer steps than one that is not resolved. -/
theorem Reaches.le_of_unresolved {root first second : Position} {path : List String}
    {steps steps' : Nat} (h : Reaches root path steps first) (hresolved : first.resolved = false)
    (h' : Reaches root path steps' second) : steps ≤ steps' := by
  -- The second way takes the steps of the first, and if it ends earlier, the rest adds no segment.
  induction h generalizing steps' with
  | refl => exact Nat.zero_le steps'
  | step hstep hrest ih =>
      rcases reaches_cases h' with
        ⟨hnil, -, -⟩ | ⟨segments, next, rest, steps', hpath, rfl, hstep', hrest'⟩
      · obtain ⟨hsegments, hpath⟩ := List.append_eq_nil_iff.mp hnil
        rcases hrest.eq_or_resolved_of_nil hpath with rfl | hlast
        · simp [hstep.resolved_of_nil hsegments] at hresolved
        · simp [hlast] at hresolved
      · obtain ⟨rfl, rfl⟩ := hstep.determined hstep' hpath
        obtain rfl := List.append_cancel_left hpath
        exact Nat.succ_le_succ (ih hresolved hrest')

end TreeSyntax
