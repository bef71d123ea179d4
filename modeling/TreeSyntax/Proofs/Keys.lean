import TreeSyntax.Proofs.Locality
import TreeSyntax.Proofs.Transparency

/-!
# Every key matters

The keys that an object must have are those of its type, and those of a reference where one may
stand and does.  A key too many or too few is found at the object itself, before any of its parts
is looked at.  An edit of the key that marks a reference changes which keys are asked for, and both
sets never agree.
-/

namespace TreeSyntax

/-! ## Entries with one more and one less -/

namespace Entries

variable {α : Type}

def without (entries : Entries α) (name : String) : Entries α :=
  entries.filter fun entry => entry.1 != name

theorem mem_names_insert {before after : Entries α} {name key : String} {value : α} :
    name ∈ names (before ++ (key, value) :: after) ↔
      name = key ∨ name ∈ names (before ++ after) := by
  simp only [names_append, names_cons, List.mem_append, List.mem_cons]
  tauto

theorem mem_names_without {entries : Entries α} {name key : String} :
    name ∈ names (entries.without key) ↔ name ∈ names entries ∧ name ≠ key := by
  simp only [names, without, List.mem_map, List.mem_filter, bne_iff_ne]
  constructor
  · rintro ⟨entry, ⟨hentry, hne⟩, rfl⟩
    exact ⟨⟨entry, hentry, rfl⟩, hne⟩
  · rintro ⟨⟨entry, hentry, rfl⟩, hne⟩
    exact ⟨entry, ⟨hentry, hne⟩, rfl⟩

end Entries

/-! ## The keys that are asked for -/

namespace NodeType

def ownKeys (type : NodeType) : List String :=
  match type.rule with
  | .primitive _ => []
  | .record fields => fields.map FieldRule.key
  | .union _ => taggedKeys

def IsKeyed (type : NodeType) : Prop :=
  ∀ pattern, type.rule ≠ .primitive pattern

/-- What is asked of a node at a type: the keys of a reference, if one may stand there and does. -/
def keysFor (type : NodeType) (resolved : Bool) (node : Json) : List String :=
  if type.allowsReference resolved && isReference node then referenceKeys else type.ownKeys

theorem keysFor_reference {type : NodeType} {resolved : Bool} {node : Json}
    (hopen : type.allowsReference resolved = true) (hnode : isReference node = true) :
    type.keysFor resolved node = referenceKeys := by
  simp [keysFor, hopen, hnode]

theorem keysFor_direct {type : NodeType} {node : Json} (resolved : Bool)
    (hnode : isReference node = false) : type.keysFor resolved node = type.ownKeys := by
  simp [keysFor, hnode]

theorem keysFor_closed {type : NodeType} {resolved : Bool} (node : Json)
    (hclosed : type.allowsReference resolved = false) :
    type.keysFor resolved node = type.ownKeys := by
  simp [keysFor, hclosed]

theorem keysFor_congr {type : NodeType} {resolved : Bool} {node other : Json}
    (h : type.allowsReference resolved = true → (isReference node = true ↔
      isReference other = true)) :
    type.keysFor resolved node = type.keysFor resolved other := by
  cases hopen : type.allowsReference resolved with
  | false => rw [keysFor_closed node hopen, keysFor_closed other hopen]
  | true => rw [keysFor, keysFor, Bool.eq_iff_iff.mpr (h hopen)]

theorem notMem_referenceKeys {type : NodeType} (hvariable : type.isVariable = true) :
    ∀ key ∈ type.ownKeys, key ∉ referenceKeys := by
  cases type with
  | function | domain | value => decide
  | _ => cases hvariable

theorem ownKeys_ne_nil {type : NodeType} (hvariable : type.isVariable = true) :
    type.ownKeys ≠ [] := by
  cases type with
  | function | domain | value => decide
  | _ => cases hvariable

end NodeType

section

variable {type : NodeType} {resolved : Bool} (hkeyed : type.IsKeyed)

include hkeyed

/-- At a position where no reference may stand, the keys of the type are looked at first. -/
private theorem collect_closed (hclosed : type.allowsReference resolved = false) (allowance : Nat)
    (node : Json) :
    ∃ collectParts, collect (allowance + 1) type resolved node =
      collectKeyed type.ownKeys collectParts node := by
  rcases type.rule_cases resolved with
    ⟨pattern, hrule⟩ | hopen | ⟨tags, hrule, -⟩ | ⟨fields, hrule, -⟩
  · exact absurd hrule (hkeyed pattern)
  · rw [hclosed] at hopen
    cases hopen
  · rw [collect_succ, NodeType.dispatch_union hrule hclosed, NodeType.ownKeys, hrule]
    exact ⟨_, rfl⟩
  · rw [collect_succ, NodeType.dispatch_record hrule hclosed, NodeType.ownKeys, hrule]
    exact ⟨_, rfl⟩

/-- A node is looked at for its keys before anything else.  This is the second step where a
reference may stand and does not. -/
theorem collect_keysFor {allowance : Nat}
    (hsteps : type.allowsReference resolved = true → allowance ≠ 0) (node : Json) :
    ∃ collectParts, collect (allowance + 1) type resolved node =
      collectKeyed (type.keysFor resolved node) collectParts node := by
  cases hopen : type.allowsReference resolved with
  | false =>
      rw [NodeType.keysFor_closed node hopen]
      exact collect_closed hkeyed hopen allowance node
  | true =>
      obtain ⟨hvariable, rfl⟩ := NodeType.allowsReference_iff.mp hopen
      obtain ⟨left, rfl⟩ := Nat.exists_eq_succ_of_ne_zero (hsteps hopen)
      cases hnode : isReference node with
      | false =>
          rw [collect_direct _ hvariable hnode, NodeType.keysFor_direct false hnode]
          exact collect_closed hkeyed (by simp [NodeType.allowsReference]) left node
      | true =>
          rw [collect_succ, NodeType.dispatch_reference hopen, collectReference, if_pos hnode,
            NodeType.keysFor_reference hopen hnode]
          exact ⟨_, rfl⟩

end

section

variable {type : NodeType} {resolved : Bool} {allowance : Nat} {node : Json}
  (hvalid : collect (allowance + 1) type resolved node = [])

include hvalid

theorem steps_of_collect_eq_nil (hopen : type.allowsReference resolved = true) :
    allowance ≠ 0 := by
  rintro rfl
  obtain ⟨hvariable, rfl⟩ := NodeType.allowsReference_iff.mp hopen
  exact collect_one_ne_nil hvariable node hvalid

theorem exactKeys_of_collect_eq_nil (hkeyed : type.IsKeyed) :
    ∃ members, node = .object members ∧ HasExactKeys members (type.keysFor resolved node) := by
  obtain ⟨collectParts, hcollect⟩ := collect_keysFor hkeyed (steps_of_collect_eq_nil hvalid) node
  rw [hvalid] at hcollect
  obtain ⟨members, hnode, hkeys, -⟩ := collectKeyed_eq_nil_iff.mp hcollect.symm
  exact ⟨members, hnode, hkeys⟩

/-- Where a node is valid, another one with wrong keys has this one failure. -/
theorem collect_of_keyFault? (hkeyed : type.IsKeyed) {new : Json} {code : ErrorCode}
    (hfault : keyFault? (type.keysFor resolved new) new = some code) :
    collect (allowance + 1) type resolved new = [.here code] := by
  obtain ⟨collectParts, hcollect⟩ := collect_keysFor hkeyed (steps_of_collect_eq_nil hvalid) new
  rw [hcollect, collectKeyed_of_keyFault? hfault]

end

/-! ## Edits of a node with exact keys -/

theorem isReference_insert_iff {before after : Members} {key : String} {value : Json} :
    isReference (.object (before ++ (key, value) :: after)) = true ↔
      referenceFlagKey = key ∨ isReference (.object (before ++ after)) = true := by
  rw [isReference, isReference, Entries.has_eq_true_iff, Entries.has_eq_true_iff,
    Entries.mem_names_insert]

theorem isReference_without_iff {members : Members} {key : String} :
    isReference (.object (Entries.without members key)) = true ↔
      isReference (.object members) = true ∧ referenceFlagKey ≠ key := by
  rw [isReference, isReference, Entries.has_eq_true_iff, Entries.has_eq_true_iff,
    Entries.mem_names_without]

/-- What is wrong after a key was put into a node with exact keys: the key itself, unless it turns
the node into a reference. -/
def insertedFault (type : NodeType) (resolved : Bool) (node : Json) (key : String) : ErrorCode :=
  if type.allowsReference resolved = true ∧ isReference node = false ∧ key = referenceFlagKey then
    .missingKey
  else .extraKey

section

variable {type : NodeType} {resolved : Bool} {key : String}

private theorem keyFault?_insert {before after : Members}
    (hexact : HasExactKeys (before ++ after)
      (type.keysFor resolved (.object (before ++ after))))
    (hnew : key ∉ Entries.names (before ++ after)) (value : Json) :
    keyFault? (type.keysFor resolved (.object (before ++ (key, value) :: after)))
        (.object (before ++ (key, value) :: after)) =
      some (insertedFault type resolved (.object (before ++ after)) key) := by
  by_cases hturns : type.allowsReference resolved = true ∧
      isReference (.object (before ++ after)) = false ∧ key = referenceFlagKey
  · -- The node is a reference now, and the content of one is missing.
    rw [insertedFault, if_pos hturns, keyFault?_eq_missingKey_iff]
    obtain ⟨hopen, hdirect, rfl⟩ := hturns
    rw [NodeType.keysFor_direct resolved hdirect] at hexact
    rw [NodeType.keysFor_reference hopen (isReference_insert_iff.mpr (.inl rfl))]
    rintro _ ⟨⟩
    refine ⟨referenceKey, by decide, ?_⟩
    intro hmem
    rcases Entries.mem_names_insert.mp hmem with heq | hold
    · exact absurd heq (by decide)
    · exact NodeType.notMem_referenceKeys (NodeType.allowsReference_iff.mp hopen).1 referenceKey
        ((hexact referenceKey).mp hold) (by decide)
  · have hkeys : type.keysFor resolved (.object (before ++ (key, value) :: after)) =
        type.keysFor resolved (.object (before ++ after)) := by
      apply NodeType.keysFor_congr
      intro hopen
      rw [isReference_insert_iff, or_iff_right_of_imp]
      intro hflag
      by_contra hnot
      exact hturns ⟨hopen, by simpa using hnot, hflag.symm⟩
    rw [hkeys, insertedFault, if_neg hturns, keyFault?_eq_extraKey_iff]
    refine ⟨_, rfl, ?_, key, Entries.mem_names_insert.mpr (.inl rfl), ?_⟩
    · intro other hother
      exact Entries.mem_names_insert.mpr (.inr ((hexact other).mpr hother))
    · intro hmem
      exact hnew ((hexact key).mpr hmem)

private theorem keyFault?_without {members : Members}
    (hexact : HasExactKeys members (type.keysFor resolved (.object members)))
    (hkey : key ∈ Entries.names members) :
    keyFault? (type.keysFor resolved (.object (Entries.without members key)))
      (.object (Entries.without members key)) = some .missingKey := by
  rw [keyFault?_eq_missingKey_iff]
  rintro _ ⟨⟩
  by_cases hturns : type.allowsReference resolved = true ∧
      isReference (.object members) = true ∧ referenceFlagKey = key
  · -- The node is no reference any more, and none of the keys of its type is there.
    obtain ⟨hopen, hreference, rfl⟩ := hturns
    have hvariable := (NodeType.allowsReference_iff.mp hopen).1
    have hdirect : isReference (.object (Entries.without members referenceFlagKey)) = false := by
      rw [← Bool.not_eq_true, isReference_without_iff]
      simp
    rw [NodeType.keysFor_reference hopen hreference] at hexact
    rw [NodeType.keysFor_direct resolved hdirect]
    obtain ⟨own, hown⟩ := List.exists_mem_of_ne_nil _ (NodeType.ownKeys_ne_nil hvariable)
    refine ⟨own, hown, ?_⟩
    intro hmem
    exact NodeType.notMem_referenceKeys hvariable own hown
      ((hexact own).mp (Entries.mem_names_without.mp hmem).1)
  · have hkeys : type.keysFor resolved (.object (Entries.without members key)) =
        type.keysFor resolved (.object members) := by
      apply NodeType.keysFor_congr
      intro hopen
      rw [isReference_without_iff, and_iff_left_of_imp]
      intro hreference hflag
      exact hturns ⟨hopen, hreference, hflag⟩
    rw [hkeys]
    exact ⟨key, (hexact key).mp hkey, by simp [Entries.mem_names_without]⟩

end

/-! ## Edits of a valid program -/

section

variable {options : Options} {program : Json} {path : List String} {visit : Visit}
  (hvalid : (validateSyntax options program).isValid = true)
  (hfirst : firstCall? options program path = some visit)

include hvalid hfirst

theorem collect_of_firstCall? :
    collect (options.maxDepth - visit.depth + 1) visit.position.type visit.position.resolved
      visit.position.node = [] := by
  have hok : (trace (options.maxDepth + 1) 0 .program false program).verdict = .ok () := by
    rw [verdict_trace]
    exact Checked.within_eq_ok_iff.mp (isValid_validateSyntax_iff.mp hvalid)
  obtain ⟨left, hallowance, hcontains⟩ := (reaches_of_firstCall? hfirst).contains hok
  have hleft : options.maxDepth - visit.depth = left := by omega
  have hverdict := hcontains.verdict
  rw [verdict_trace] at hverdict
  rw [hleft]
  exact (stopsAtFirst_check _ _ _ _).eq_ok_iff.mp hverdict

/-- Wrong keys at a node are all that is found when the rest of the program is valid. -/
private theorem validateSyntax_of_keyFault? (hkeyed : visit.position.type.IsKeyed) {new : Json}
    {code : ErrorCode}
    (hfault : keyFault? (visit.position.type.keysFor visit.position.resolved new) new =
      some code) :
    validateSyntax options (program.replaceAt path new) =
      .invalid code (Outcome.rootSegment :: path) := by
  rw [validateSyntax_eq_outcome, (collectProgram_replaceAt hvalid hfirst new).2,
    collect_of_keyFault? (collect_of_firstCall? hvalid hfirst) hkeyed hfault]
  simp [Failures.below, Failures.outcome]

end

/-- At every object that is inspected in a valid program, a new key at any place and with any value
is an extra key, unless it turns the object into a reference, whose content is then missing; and
any key that is taken away is missing.  The failure is found at the object itself. -/
theorem every_key_is_exact {options : Options} {program : Json} {path : List String}
    {visit : Visit} (hvalid : (validateSyntax options program).isValid = true)
    (hfirst : firstCall? options program path = some visit)
    (hkeyed : visit.position.type.IsKeyed) :
    ∃ members, visit.position.node = .object members ∧
      (program.Addressable → program.follow? path = some (.object members)) ∧
      (∀ before after key value, members = before ++ after → key ∉ Entries.names members →
        validateSyntax options
            (program.replaceAt path (.object (before ++ (key, value) :: after))) =
          .invalid (insertedFault visit.position.type visit.position.resolved (.object members) key)
            (Outcome.rootSegment :: path)) ∧
      ∀ key ∈ Entries.names members,
        validateSyntax options
            (program.replaceAt path (.object (Entries.without members key))) =
          .invalid .missingKey (Outcome.rootSegment :: path) := by
  obtain ⟨members, hnode, hexact⟩ :=
    exactKeys_of_collect_eq_nil (collect_of_firstCall? hvalid hfirst) hkeyed
  rw [hnode] at hexact
  refine ⟨members, hnode, ?_, ?_, ?_⟩
  · intro haddressable
    rw [← hnode]
    exact (reaches_of_firstCall? hfirst).follow? haddressable
  · rintro before after key value rfl hnew
    exact validateSyntax_of_keyFault? hvalid hfirst hkeyed (keyFault?_insert hexact hnew value)
  · intro key hkey
    exact validateSyntax_of_keyFault? hvalid hfirst hkeyed (keyFault?_without hexact hkey)

theorem boundFunction_keys :
    let program := singleDefinition (referenceNode (.string "true") (.string "0"))
    let place := ["functions", "0", "function"]
    (validateSyntax ⟨3, false⟩ program).isValid = true ∧
    firstCall? ⟨3, false⟩ program place =
      some ⟨Outcome.rootSegment :: place,
        ⟨.function, false, referenceNode (.string "true") (.string "0")⟩, 2⟩ ∧
    NodeType.function.IsKeyed ∧
    validateSyntax ⟨3, false⟩ (program.replaceAt place (.object [("name", .null),
        (referenceFlagKey, .string "true"), (referenceKey, .string "0")])) =
      .invalid .extraKey (Outcome.rootSegment :: place) ∧
    validateSyntax ⟨3, false⟩ (program.replaceAt place (.object [(referenceKey, .string "0")])) =
      .invalid .missingKey (Outcome.rootSegment :: place) := by
  intro program place
  have hvalid : (validateSyntax ⟨3, false⟩ program).isValid = true := by decide
  have hfirst : firstCall? ⟨3, false⟩ program place =
      some ⟨Outcome.rootSegment :: place,
        ⟨.function, false, referenceNode (.string "true") (.string "0")⟩, 2⟩ := by rfl
  have hkeyed : NodeType.function.IsKeyed := nofun
  obtain ⟨members, hnode, -, hinserted, hremoved⟩ := every_key_is_exact hvalid hfirst hkeyed
  obtain rfl := Json.object.inj hnode
  exact ⟨hvalid, hfirst, hkeyed, hinserted [] _ "name" .null rfl (by decide),
    hremoved referenceFlagKey (by decide)⟩

end TreeSyntax
