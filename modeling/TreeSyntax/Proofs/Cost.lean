import TreeSyntax.Proofs.Derivation

/-!
# What a node costs

A node that can be accepted at all costs a fixed number of grammar steps: a check accepts it exactly
when its allowance is more than that.  A reference and a tag each cost one step on top of what they
hold, and a record costs as much as its dearest field.
-/

namespace TreeSyntax

/-! ## Costs of nodes -/

/-- A check accepts the node with any allowance of more than these steps and with no other. -/
def Costs (type : NodeType) (resolved : Bool) (node : Json) (steps : Nat) : Prop :=
  ∀ allowance, collect allowance type resolved node = [] ↔ steps < allowance

def CostsAtMost (type : NodeType) (resolved : Bool) (node : Json) (steps : Nat) : Prop :=
  ∀ allowance, steps < allowance → collect allowance type resolved node = []

theorem Costs.atMost {type : NodeType} {resolved : Bool} {node : Json} {steps bound : Nat}
    (h : Costs type resolved node steps) (hle : steps ≤ bound) :
    CostsAtMost type resolved node bound := by
  intro allowance hlt
  exact (h allowance).mpr (Nat.lt_of_le_of_lt hle hlt)

namespace Costs

variable {type tag : NodeType} {resolved : Bool} {members : Members} {content : Json} {steps : Nat}

/-- A node is one step dearer than the part that decides it. -/
theorem of_part {part : NodeType} {resolved' : Bool} {node : Json}
    (hpart : Costs part resolved' content steps)
    (h : ∀ allowance, collect (allowance + 1) type resolved node = [] ↔
      collect allowance part resolved' content = []) :
    Costs type resolved node (steps + 1) := by
  intro allowance
  cases allowance with
  | zero => simp [collect]
  | succ allowance => rw [h, hpart, Nat.add_lt_add_iff_right]

theorem primitive {pattern : Pattern} (hrule : type.rule = .primitive pattern)
    (hmatches : pattern.Matches content.plainText) : Costs type resolved content 0 := by
  have haccepts := Pattern.accepts_iff_matches.mpr hmatches
  intro allowance
  cases allowance with
  | zero => simp [collect]
  | succ allowance => simp [collect_succ, NodeType.dispatch_primitive hrule, haccepts]

theorem direct {node : Json} (hvariable : type.isVariable = true)
    (hnode : isReference node = false) (hsame : Costs type true node steps) :
    Costs type false node (steps + 1) := by
  refine hsame.of_part fun allowance => ?_
  rw [collect_direct allowance hvariable hnode]

theorem bound (hvariable : type.isVariable = true) (hkeys : HasExactKeys members referenceKeys)
    (hflag : Entries.find? members referenceFlagKey = some (.string "true"))
    (hindex : Entries.find? members referenceKey = some content)
    (hpart : Costs .integerLiteral false content steps) :
    Costs type false (.object members) (steps + 1) := by
  refine hpart.of_part fun allowance => ?_
  rw [collect_bound allowance hvariable hkeys hflag hindex, Failures.within_eq_nil_iff]

theorem inlined {flag : Json} (hvariable : type.isVariable = true)
    (hkeys : HasExactKeys members referenceKeys)
    (hflag : Entries.find? members referenceFlagKey = some flag) (hother : flag ≠ .string "true")
    (hcontent : Entries.find? members referenceKey = some content)
    (hpart : Costs type true content steps) : Costs type false (.object members) (steps + 1) := by
  refine hpart.of_part fun allowance => ?_
  rw [collect_inlined allowance hvariable hkeys hflag hother hcontent, Failures.within_eq_nil_iff]

theorem payload {tags : List NodeType} (hrule : type.rule = .union tags)
    (hclosed : type.allowsReference resolved = false) (hkeys : HasExactKeys members taggedKeys)
    (hallowed : tag ∈ tags) (htag : Entries.find? members tagKey = some (.string tag.name))
    (hcontent : Entries.find? members payloadKey = some content)
    (hpart : Costs tag false content steps) :
    Costs type resolved (.object members) (steps + 1) := by
  refine hpart.of_part fun allowance => ?_
  rw [collect_payload allowance hrule hclosed hkeys hallowed htag hcontent,
    Failures.within_eq_nil_iff]

end Costs

/-! ## Costs of fields -/

def FieldCosts (members : Members) (field : FieldRule) (steps : Nat) : Prop :=
  ∀ allowance,
    collectField (fun part => collect allowance part false) members field = [] ↔ steps ≤ allowance

def FieldCostsAtMost (members : Members) (field : FieldRule) (steps : Nat) : Prop :=
  ∀ allowance, steps ≤ allowance →
    collectField (fun part => collect allowance part false) members field = []

section

variable {members : Members} {field : FieldRule} {steps : Nat}

theorem FieldCosts.single {value : Json} (hsingle : field.isList = false)
    (hvalue : Entries.find? members field.key = some value)
    (hpart : Costs field.type false value steps) : FieldCosts members field (steps + 1) := by
  intro allowance
  rw [collectField_eq_nil_iff hvalue]
  simp only [hsingle, true_and, Bool.false_eq_true, false_and, or_false]
  exact hpart allowance

/-- A list costs as much as its dearest element. -/
theorem FieldCosts.list {before after : List Json} {item : Json} (hlist : field.isList = true)
    (hvalue : Entries.find? members field.key = some (.array (before ++ item :: after)))
    (hitem : Costs field.type false item steps)
    (hothers : ∀ other ∈ before ++ after, CostsAtMost field.type false other steps) :
    FieldCosts members field (steps + 1) := by
  intro allowance
  rw [collectField_eq_nil_iff hvalue]
  simp only [hlist, Bool.true_eq_false, false_and, false_or, true_and, Json.array.injEq,
    exists_eq_left']
  constructor
  · intro h
    exact (hitem allowance).mp (h item (by simp))
  · intro hlt other hother
    rcases List.mem_append.mp hother with hbefore | hrest
    · exact hothers other (List.mem_append_left after hbefore) allowance hlt
    · rcases List.mem_cons.mp hrest with rfl | hafter
      · exact (hitem allowance).mpr hlt
      · exact hothers other (List.mem_append_right before hafter) allowance hlt

theorem FieldCostsAtMost.single {value : Json} {bound : Nat} (hsingle : field.isList = false)
    (hvalue : Entries.find? members field.key = some value)
    (hpart : CostsAtMost field.type false value steps) (hlt : steps < bound) :
    FieldCostsAtMost members field bound := by
  intro allowance hle
  exact (collectField_eq_nil_iff hvalue).mpr
    (.inl ⟨hsingle, hpart allowance (Nat.lt_of_lt_of_le hlt hle)⟩)

theorem FieldCostsAtMost.list {items : List Json} {bound : Nat} (hlist : field.isList = true)
    (hvalue : Entries.find? members field.key = some (.array items))
    (hitems : ∀ item ∈ items, CostsAtMost field.type false item steps) (hlt : steps < bound) :
    FieldCostsAtMost members field bound := by
  intro allowance hle
  exact (collectField_eq_nil_iff hvalue).mpr (.inr ⟨hlist, items, rfl, fun item hitem =>
    hitems item hitem allowance (Nat.lt_of_lt_of_le hlt hle)⟩)

/-- Any value is a text, so a field of this type costs its own step and no more. -/
theorem FieldCostsAtMost.text (hsingle : field.isList = false) (htype : field.type = .stringLiteral)
    (hkey : field.key ∈ Entries.names members) (hpos : 0 < steps) :
    FieldCostsAtMost members field steps := by
  have hpart : Costs field.type false (valueAt members field.key) 0 := by
    rw [htype]
    exact .primitive rfl (.anything _)
  exact .single hsingle (find?_eq_valueAt hkey) (hpart.atMost (Nat.le_refl 0)) hpos

theorem FieldCosts.atMost (h : FieldCosts members field steps) :
    FieldCostsAtMost members field steps :=
  fun allowance => (h allowance).mpr

/-- A record costs as much as its dearest field. -/
theorem Costs.record {type : NodeType} {resolved : Bool} {fields : List FieldRule}
    (hrule : type.rule = .record fields) (hclosed : type.allowsReference resolved = false)
    (hkeys : HasExactKeys members (fields.map FieldRule.key)) (hfield : field ∈ fields)
    (hdearest : FieldCosts members field steps)
    (hothers : ∀ other ∈ fields, FieldCostsAtMost members other steps) :
    Costs type resolved (.object members) steps := by
  intro allowance
  cases allowance with
  | zero => simp [collect]
  | succ allowance =>
      rw [collect_fields allowance hrule hclosed hkeys, List.flatMap_eq_nil_iff, Nat.lt_succ_iff]
      constructor
      · intro h
        exact (hdearest allowance).mp (h field hfield)
      · intro hle other hother
        exact hothers other hother allowance hle

end

end TreeSyntax
