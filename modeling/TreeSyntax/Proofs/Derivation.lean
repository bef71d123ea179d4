import TreeSyntax.Proofs.Exhaustive

/-!
# Derivations of the grammar

The grammar derives a node at a type by rules that say nothing about how a check goes about it.
The height of a derivation is the greatest number of grammar steps from its root to a leaf.  A
check accepts exactly the nodes with a derivation whose height is within the limit.
-/

namespace TreeSyntax

/-! ## Derivations -/

mutual

inductive Derives : NodeType → Bool → Json → Nat → Prop
  | primitive {type : NodeType} {resolved : Bool} {pattern : Pattern} {node : Json}
      (hrule : type.rule = .primitive pattern) (hmatches : pattern.Matches node.plainText) :
      Derives type resolved node 0
  | direct {type : NodeType} {node : Json} {height : Nat} (hvariable : type.isVariable = true)
      (hnode : isReference node = false) (hsame : Derives type true node height) :
      Derives type false node (height + 1)
  | bound {type : NodeType} {members : Members} {index : Json} {height : Nat}
      (hvariable : type.isVariable = true) (hkeys : HasExactKeys members referenceKeys)
      (hflag : Entries.find? members referenceFlagKey = some (.string "true"))
      (hindex : Entries.find? members referenceKey = some index)
      (hpart : Derives .integerLiteral false index height) :
      Derives type false (.object members) (height + 1)
  | inlined {type : NodeType} {members : Members} {flag content : Json} {height : Nat}
      (hvariable : type.isVariable = true) (hkeys : HasExactKeys members referenceKeys)
      (hflag : Entries.find? members referenceFlagKey = some flag) (hother : flag ≠ .string "true")
      (hcontent : Entries.find? members referenceKey = some content)
      (hpart : Derives type true content height) :
      Derives type false (.object members) (height + 1)
  | tagged {type tag : NodeType} {resolved : Bool} {tags : List NodeType} {members : Members}
      {content : Json} {height : Nat} (hrule : type.rule = .union tags)
      (hclosed : type.allowsReference resolved = false) (hkeys : HasExactKeys members taggedKeys)
      (hallowed : tag ∈ tags) (htag : Entries.find? members tagKey = some (.string tag.name))
      (hcontent : Entries.find? members payloadKey = some content)
      (hpart : Derives tag false content height) :
      Derives type resolved (.object members) (height + 1)
  | record {type : NodeType} {resolved : Bool} {fields : List FieldRule} {members : Members}
      {height : Nat} (hrule : type.rule = .record fields)
      (hclosed : type.allowsReference resolved = false)
      (hkeys : HasExactKeys members (fields.map FieldRule.key))
      (hparts : DerivesFields members fields height) :
      Derives type resolved (.object members) height

inductive DerivesFields : Members → List FieldRule → Nat → Prop
  | nil {members : Members} : DerivesFields members [] 0
  | single {members : Members} {field : FieldRule} {fields : List FieldRule} {value : Json}
      {height rest : Nat} (hsingle : field.isList = false)
      (hvalue : Entries.find? members field.key = some value)
      (hpart : Derives field.type false value height) (hrest : DerivesFields members fields rest) :
      DerivesFields members (field :: fields) (max (height + 1) rest)
  | list {members : Members} {field : FieldRule} {fields : List FieldRule} {items : List Json}
      {height rest : Nat} (hlist : field.isList = true)
      (hvalue : Entries.find? members field.key = some (.array items))
      (hparts : DerivesItems field.type items height) (hrest : DerivesFields members fields rest) :
      DerivesFields members (field :: fields) (max height rest)

inductive DerivesItems : NodeType → List Json → Nat → Prop
  | nil {type : NodeType} : DerivesItems type [] 0
  | cons {type : NodeType} {item : Json} {items : List Json} {height rest : Nat}
      (hpart : Derives type false item height) (hrest : DerivesItems type items rest) :
      DerivesItems type (item :: items) (max (height + 1) rest)

end

/-! ## When nothing is collected -/

@[simp] theorem Failures.within_eq_nil_iff {segment : String} {failures : Failures} :
    failures.within segment = [] ↔ failures = [] :=
  List.map_eq_nil_iff

theorem collectKeyed_eq_nil_iff {keys : List String} {collectParts : Members → Failures}
    {node : Json} :
    collectKeyed keys collectParts node = [] ↔
      ∃ members, node = .object members ∧ HasExactKeys members keys ∧
        collectParts members = [] := by
  constructor
  · intro h
    rcases collectKeyed_cases keys collectParts node with
      ⟨code, hfault, hcollect⟩ | ⟨members, rfl, hkeys, hcollect⟩
    · rw [hcollect] at h
      cases h
    · exact ⟨members, rfl, hkeys, hcollect.symm.trans h⟩
  · rintro ⟨members, rfl, hkeys, hparts⟩
    rw [collectKeyed_of_exactKeys hkeys, hparts]

@[simp] theorem collectItems_eq_nil_iff {key : String} {collectItem : Json → Failures}
    {items : List Json} :
    collectItems key collectItem items = [] ↔ ∀ item ∈ items, collectItem item = [] := by
  simp only [collectItems, List.flatMap_eq_nil_iff, Failures.withinIndex,
    Failures.within_eq_nil_iff]
  constructor
  · intro h item hitem
    obtain ⟨index, hindex⟩ := List.mem_iff_getElem?.mp hitem
    exact h (item, index) (List.mk_mem_zipIdx_iff_getElem?.mpr hindex)
  · rintro h ⟨item, index⟩ hitem
    exact h item (List.fst_mem_of_mem_zipIdx hitem)

theorem collectField_eq_nil_iff {collectPart : NodeType → Json → Failures} {members : Members}
    {field : FieldRule} {value : Json}
    (hvalue : Entries.find? members field.key = some value) :
    collectField collectPart members field = [] ↔
      (field.isList = false ∧ collectPart field.type value = []) ∨
      (field.isList = true ∧
        ∃ items, value = .array items ∧ ∀ item ∈ items, collectPart field.type item = []) := by
  simp only [collectField, valueAt_eq hvalue]
  cases field.isList with
  | false => simp
  | true =>
      cases value with
      | array items => simp [Json.items?]
      | _ => simp [Json.items?]

/-! ## From an empty collection to a derivation -/

section

variable {allowance : Nat}

theorem derivesItems_of_collect_eq_nil {type : NodeType} {items : List Json}
    (ih : ∀ item, collect allowance type false item = [] →
      ∃ height < allowance, Derives type false item height)
    (h : ∀ item ∈ items, collect allowance type false item = []) :
    ∃ height ≤ allowance, DerivesItems type items height := by
  induction items with
  | nil => exact ⟨0, Nat.zero_le _, .nil⟩
  | cons item items ihItems =>
      obtain ⟨hitem, hitems⟩ := List.forall_mem_cons.mp h
      obtain ⟨height, hheight, hpart⟩ := ih item hitem
      obtain ⟨rest, hrest, hparts⟩ := ihItems hitems
      exact ⟨max (height + 1) rest, by omega, .cons hpart hparts⟩

theorem derivesFields_of_collect_eq_nil {members : Members} {fields : List FieldRule}
    (ih : ∀ type node, collect allowance type false node = [] →
      ∃ height < allowance, Derives type false node height)
    (hkeys : ∀ field ∈ fields, field.key ∈ Entries.names members)
    (h : ∀ field ∈ fields,
      collectField (fun part => collect allowance part false) members field = []) :
    ∃ height ≤ allowance, DerivesFields members fields height := by
  induction fields with
  | nil => exact ⟨0, Nat.zero_le _, .nil⟩
  | cons field fields ihFields =>
      obtain ⟨hkey, hkeys⟩ := List.forall_mem_cons.mp hkeys
      obtain ⟨hfield, hfields⟩ := List.forall_mem_cons.mp h
      obtain ⟨rest, hrest, hparts⟩ := ihFields hkeys hfields
      obtain ⟨value, hvalue⟩ := Entries.exists_find?_of_mem hkey
      rcases (collectField_eq_nil_iff hvalue).mp hfield with
        ⟨hsingle, hnil⟩ | ⟨hlist, items, rfl, hitems⟩
      · obtain ⟨height, hheight, hpart⟩ := ih field.type value hnil
        exact ⟨max (height + 1) rest, by omega, .single hsingle hvalue hpart hparts⟩
      · obtain ⟨height, hheight, hlistParts⟩ :=
          derivesItems_of_collect_eq_nil (ih field.type) hitems
        exact ⟨max height rest, by omega, .list hlist hvalue hlistParts hparts⟩

theorem derives_of_collectReference_eq_nil {type : NodeType} {node : Json}
    (hvariable : type.isVariable = true)
    (ih : ∀ type resolved node, collect allowance type resolved node = [] →
      ∃ height < allowance, Derives type resolved node height)
    (h : collectReference (collect allowance) type node = []) :
    ∃ height < allowance + 1, Derives type false node height := by
  simp only [collectReference] at h
  cases href : isReference node with
  | false =>
      simp only [href] at h
      obtain ⟨height, hheight, hsame⟩ := ih type true node h
      exact ⟨height + 1, by omega, .direct hvariable href hsame⟩
  | true =>
      simp only [href, if_true] at h
      obtain ⟨members, rfl, hkeys, hparts⟩ := collectKeyed_eq_nil_iff.mp h
      have hflag := find?_eq_valueAt ((hkeys referenceFlagKey).mpr (by decide))
      have hcontent := find?_eq_valueAt ((hkeys referenceKey).mpr (by decide))
      by_cases htrue : (valueAt members referenceFlagKey).text? = some "true"
      · simp only [htrue, if_true, Failures.within_eq_nil_iff] at hparts
        obtain ⟨height, hheight, hpart⟩ := ih .integerLiteral false _ hparts
        rw [Json.text?_eq_some_iff.mp htrue] at hflag
        exact ⟨height + 1, by omega, .bound hvariable hkeys hflag hcontent hpart⟩
      · simp only [htrue, if_false, Failures.within_eq_nil_iff] at hparts
        obtain ⟨height, hheight, hpart⟩ := ih type true _ hparts
        have hother : valueAt members referenceFlagKey ≠ .string "true" :=
          fun heq => htrue (Json.text?_eq_some_iff.mpr heq)
        exact ⟨height + 1, by omega, .inlined hvariable hkeys hflag hother hcontent hpart⟩

theorem derives_of_collectUnion_eq_nil {type : NodeType} {resolved : Bool} {tags : List NodeType}
    {node : Json} (hrule : type.rule = .union tags)
    (hclosed : type.allowsReference resolved = false)
    (ih : ∀ type node, collect allowance type false node = [] →
      ∃ height < allowance, Derives type false node height)
    (h : collectUnion (fun part => collect allowance part false) tags node = []) :
    ∃ height < allowance + 1, Derives type resolved node height := by
  obtain ⟨members, rfl, hkeys, hparts⟩ := collectKeyed_eq_nil_iff.mp h
  have htag := find?_eq_valueAt ((hkeys tagKey).mpr (by decide))
  have hcontent := find?_eq_valueAt ((hkeys payloadKey).mpr (by decide))
  cases hallowed : allowedTag? tags (valueAt members tagKey).text? with
  | none => simp [hallowed] at hparts
  | some tag =>
      simp only [hallowed, Failures.within_eq_nil_iff] at hparts
      obtain ⟨hin, hname⟩ := allowedTag?_eq_some_iff.mp hallowed
      rw [Json.text?_eq_some_iff.mp hname] at htag
      obtain ⟨height, hheight, hpart⟩ := ih tag _ hparts
      exact ⟨height + 1, by omega, .tagged hrule hclosed hkeys hin htag hcontent hpart⟩

theorem derives_of_collectRecord_eq_nil {type : NodeType} {resolved : Bool}
    {fields : List FieldRule} {node : Json} (hrule : type.rule = .record fields)
    (hclosed : type.allowsReference resolved = false)
    (ih : ∀ type node, collect allowance type false node = [] →
      ∃ height < allowance, Derives type false node height)
    (h : collectRecord (fun part => collect allowance part false) fields node = []) :
    ∃ height < allowance + 1, Derives type resolved node height := by
  obtain ⟨members, rfl, hkeys, hparts⟩ := collectKeyed_eq_nil_iff.mp h
  obtain ⟨height, hheight, hfields⟩ := derivesFields_of_collect_eq_nil ih
    (fun field hfield => (hkeys field.key).mpr (List.mem_map_of_mem hfield))
    (List.flatMap_eq_nil_iff.mp hparts)
  exact ⟨height, by omega, .record hrule hclosed hkeys hfields⟩

end

theorem derives_of_collect_eq_nil {allowance : Nat} {type : NodeType} {resolved : Bool}
    {node : Json} (h : collect allowance type resolved node = []) :
    ∃ height < allowance, Derives type resolved node height := by
  induction allowance generalizing type resolved node with
  | zero => cases h
  | succ allowance ih =>
      rcases NodeType.rule_cases type resolved with
        ⟨pattern, hrule⟩ | hopen | ⟨tags, hrule, hclosed⟩ | ⟨fields, hrule, hclosed⟩
      · rw [collect_succ, NodeType.dispatch_primitive hrule] at h
        split at h
        next haccepts =>
          exact ⟨0, Nat.succ_pos _, .primitive hrule (Pattern.accepts_iff_matches.mp haccepts)⟩
        · cases h
      · rw [collect_succ, NodeType.dispatch_reference hopen] at h
        obtain ⟨hvariable, rfl⟩ := NodeType.allowsReference_iff.mp hopen
        exact derives_of_collectReference_eq_nil hvariable (fun _ _ _ => ih) h
      · rw [collect_succ, NodeType.dispatch_union hrule hclosed] at h
        exact derives_of_collectUnion_eq_nil hrule hclosed (fun _ _ => ih) h
      · rw [collect_succ, NodeType.dispatch_record hrule hclosed] at h
        exact derives_of_collectRecord_eq_nil hrule hclosed (fun _ _ => ih) h

/-! ## From a derivation to an empty collection -/

section

variable {allowance : Nat}

theorem collect_items_eq_nil {type : NodeType} {items : List Json} {height : Nat}
    (ih : ∀ item height, Derives type false item height → height < allowance →
      collect allowance type false item = [])
    (h : DerivesItems type items height) (hle : height ≤ allowance) :
    ∀ item ∈ items, collect allowance type false item = [] := by
  induction items generalizing height with
  | nil => simp
  | cons item items ihItems =>
      cases h with
      | @cons _ _ _ first rest hpart hrest =>
          refine List.forall_mem_cons.mpr ⟨ih item first hpart (by omega), ?_⟩
          exact ihItems hrest (by omega)

theorem collect_fields_eq_nil {members : Members} {fields : List FieldRule} {height : Nat}
    (ih : ∀ type node height, Derives type false node height → height < allowance →
      collect allowance type false node = [])
    (h : DerivesFields members fields height) (hle : height ≤ allowance) :
    fields.flatMap (collectField (fun part => collect allowance part false) members) = [] := by
  induction fields generalizing height with
  | nil => rfl
  | cons field fields ihFields =>
      rw [List.flatMap_cons, List.append_eq_nil_iff]
      cases h with
      | @single _ _ _ value first rest hsingle hvalue hpart hrest =>
          refine ⟨(collectField_eq_nil_iff hvalue).mpr (.inl ⟨hsingle, ?_⟩), ?_⟩
          · exact ih field.type value first hpart (by omega)
          · exact ihFields hrest (by omega)
      | @list _ _ _ items first rest hlist hvalue hparts hrest =>
          refine ⟨(collectField_eq_nil_iff hvalue).mpr (.inr ⟨hlist, items, rfl, ?_⟩), ?_⟩
          · exact collect_items_eq_nil (ih field.type) hparts (by omega)
          · exact ihFields hrest (by omega)

end

theorem collect_eq_nil_of_derives {allowance : Nat} {type : NodeType} {resolved : Bool}
    {node : Json} {height : Nat} (h : Derives type resolved node height)
    (hlt : height < allowance) : collect allowance type resolved node = [] := by
  induction allowance generalizing type resolved node height with
  | zero => omega
  | succ allowance ih =>
      cases h with
      | primitive hrule hmatches =>
          rw [collect_succ, NodeType.dispatch_primitive hrule,
            if_pos (Pattern.accepts_iff_matches.mpr hmatches)]
      | direct hvariable hnode hsame =>
          rw [collect_direct allowance hvariable hnode]
          exact ih hsame (by omega)
      | bound hvariable hkeys hflag hindex hpart =>
          rw [collect_bound allowance hvariable hkeys hflag hindex]
          exact Failures.within_eq_nil_iff.mpr (ih hpart (by omega))
      | inlined hvariable hkeys hflag hother hcontent hpart =>
          rw [collect_inlined allowance hvariable hkeys hflag hother hcontent]
          exact Failures.within_eq_nil_iff.mpr (ih hpart (by omega))
      | tagged hrule hclosed hkeys hallowed htag hcontent hpart =>
          rw [collect_payload allowance hrule hclosed hkeys hallowed htag hcontent]
          exact Failures.within_eq_nil_iff.mpr (ih hpart (by omega))
      | record hrule hclosed hkeys hparts =>
          rw [collect_fields allowance hrule hclosed hkeys]
          exact collect_fields_eq_nil (fun _ _ _ => ih) hparts (by omega)

theorem collect_eq_nil_iff_derives {allowance : Nat} {type : NodeType} {resolved : Bool}
    {node : Json} :
    collect allowance type resolved node = [] ↔
      ∃ height < allowance, Derives type resolved node height :=
  ⟨derives_of_collect_eq_nil, fun ⟨_, hlt, h⟩ => collect_eq_nil_of_derives h hlt⟩

/-! ## Acceptance -/

theorem NodeType.ofName?_eq_some_iff {name : String} {type : NodeType} :
    ofName? name = some type ↔ type.name = name := by
  constructor
  · intro h
    simpa [ofName?] using List.find?_some h
  · rintro rfl
    exact ofName?_name type

theorem checkNode_eq_ok_iff (options : Options) (typeName : String) (resolved : Bool)
    (node : Json) :
    checkNode options typeName resolved node = .ok () ↔
      ∃ type height, type.name = typeName ∧ height ≤ options.maxDepth ∧
        Derives type resolved node height := by
  rw [(stopsAtFirst_checkNode options typeName resolved node).eq_ok_iff, collectNode]
  cases htype : NodeType.ofName? typeName with
  | none =>
      constructor
      · intro h
        cases h
      · rintro ⟨type, _, hname, -⟩
        rw [NodeType.ofName?_eq_some_iff.mpr hname] at htype
        cases htype
  | some type =>
      have hname := NodeType.ofName?_eq_some_iff.mp htype
      simp only [collect_eq_nil_iff_derives, Nat.lt_succ_iff]
      constructor
      · rintro ⟨height, hheight, h⟩
        exact ⟨type, height, hname, hheight, h⟩
      · rintro ⟨other, height, hother, hheight, h⟩
        obtain rfl := NodeType.name_injective (hother.trans hname.symm)
        exact ⟨height, hheight, h⟩

theorem isValid_ofVerdict_iff {verdict : Verdict Violation} :
    (Outcome.ofVerdict (verdict.mapReason Violation.code)).isValid = true ↔ verdict = .ok () := by
  cases verdict <;> simp

/-- The validator accepts exactly what the grammar derives within the limit: programs at the type
of programs, and any node at any type that is named. -/
theorem validator_accepts_exactly_derivable :
    (∀ (options : Options) (program : Json),
      (validateSyntax options program).isValid = true ↔
        ∃ height ≤ options.maxDepth, Derives .program false program height) ∧
    (∀ (options : Options) (typeName : String) (resolved : Bool) (node : Json),
      checkNode options typeName resolved node = .ok () ↔
        ∃ type height, type.name = typeName ∧ height ≤ options.maxDepth ∧
          Derives type resolved node height) ∧
    (∀ (typeName : String) (resolved : Bool) (node : Json),
      (validateNode typeName resolved node).isValid = true ↔
        ∃ type height, type.name = typeName ∧ height ≤ Options.default.maxDepth ∧
          Derives type resolved node height) := by
  refine ⟨fun options program => ?_, checkNode_eq_ok_iff, fun typeName resolved node => ?_⟩
  · rw [validateSyntax_eq_outcome, Failures.isValid_outcome_iff, collectProgram,
      collect_eq_nil_iff_derives]
    simp only [Nat.lt_succ_iff]
  · rw [validateNode, isValid_ofVerdict_iff, checkNode_eq_ok_iff]

end TreeSyntax
