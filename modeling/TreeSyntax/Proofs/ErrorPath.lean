import TreeSyntax.Proofs.Fault

/-!
# Where an error path leads

The path of a failure, followed from the root, ends at the very node that failed, and what failed
there is what the code says.
-/

namespace TreeSyntax

theorem Fault.leads {position : Position} {code : ErrorCode} {below : List String} {node : Json}
    (h : Fault position code below node) :
    ∃ trail, below = trail.map Json.Branch.text ∧ Json.Leads position.node trail node := by
  cases h with
  | invalidList hrule hclosed hkeys hfield hlist hvalue hother =>
      exact ⟨[.key _], rfl, .key hvalue (.here _)⟩
  | _ => exact ⟨[], rfl, .here _⟩

/-- The path of an offence is a trail of keys and decimal indices. -/
theorem Offends.leads {limit : Nat} {root : Position} {code : ErrorCode} {path : List String}
    {node : Json} (h : Offends limit root code path node) :
    ∃ trail, path = trail.map Json.Branch.text ∧ Json.Leads root.node trail node := by
  cases h with
  | fault hreaches hsteps hfault =>
      obtain ⟨trail, rfl, hleads⟩ := hreaches.leads
      obtain ⟨more, rfl, hmore⟩ := hfault.leads
      exact ⟨trail ++ more, List.map_append.symm, hleads.append hmore⟩
  | tooDeep hreaches => exact hreaches.leads

theorem Offends.follow? {limit : Nat} {root : Position} {code : ErrorCode} {path : List String}
    {node : Json} (h : Offends limit root code path node)
    (haddressable : root.node.Addressable) : root.node.follow? path = some node := by
  obtain ⟨trail, rfl, hleads⟩ := h.leads
  exact hleads.follow? haddressable

/-! ## Invalid programs -/

theorem exists_offence_of_invalid {options : Options} {program : Json}
    (hinvalid : (validateSyntax options program).isValid = false) :
    ∃ code path node,
      validateSyntax options program = .invalid code (Outcome.rootSegment :: path) ∧
      Offends options.maxDepth ⟨.program, false, program⟩ code path node := by
  rw [validateSyntax_eq_outcome] at hinvalid ⊢
  cases hfailures : collectProgram options program with
  | nil => simp [hfailures] at hinvalid
  | cons failure failures =>
      have hmem : failure ∈ collectProgram options program := by simp [hfailures]
      obtain ⟨node, hnode⟩ : ∃ node, Offends options.maxDepth ⟨.program, false, program⟩
          failure.reason failure.path node := offends_of_mem_collect hmem
      exact ⟨failure.reason, failure.path, node, rfl, hnode⟩

/-- The path of an invalid program leads, after the segment of the root, to a node that offends
against the grammar with the reported code, at the one type that the path reaches. -/
theorem error_path_leads_to_offending_node (options : Options) (program : Json)
    (haddressable : program.Addressable)
    (hinvalid : (validateSyntax options program).isValid = false) :
    (∃ code path node,
      validateSyntax options program = .invalid code (Outcome.rootSegment :: path) ∧
      (validateSyntax options program).locate? program = some node ∧
      Offends options.maxDepth ⟨.program, false, program⟩ code path node) ∧
    ∀ path steps steps' first second,
      Reaches ⟨.program, false, program⟩ path steps first →
      Reaches ⟨.program, false, program⟩ path steps' second →
        first.type = second.type ∧ first.node = second.node := by
  refine ⟨?_, fun _ _ _ _ _ hfirst hsecond => hfirst.type_unique hsecond⟩
  obtain ⟨code, path, node, houtcome, hoffends⟩ := exists_offence_of_invalid hinvalid
  refine ⟨code, path, node, houtcome, ?_, hoffends⟩
  rw [houtcome]
  exact hoffends.follow? haddressable

def indexInPlace : Json :=
  .object [("functions", .array [.object [
    ("function", .object [("reference", .string "3"), ("isVariableReference", .bool true)]),
    ("id", .null)]])]

theorem indexInPlace_error_path :
    indexInPlace.Addressable ∧ (validateSyntax .default indexInPlace).isValid = false ∧
    ∃ code path node,
      validateSyntax .default indexInPlace = .invalid code (Outcome.rootSegment :: path) ∧
      (validateSyntax .default indexInPlace).locate? indexInPlace = some node ∧
      Offends 256 ⟨.program, false, indexInPlace⟩ code path node := by
  have haddressable : indexInPlace.Addressable := by
    simp [indexInPlace, Json.Addressable, Json.AddressableItems, Json.AddressableMembers,
      Text.unsignedBound, UInt64.size]
  have hinvalid : (validateSyntax .default indexInPlace).isValid = false := by decide
  exact ⟨haddressable, hinvalid,
    (error_path_leads_to_offending_node .default indexInPlace haddressable hinvalid).1⟩

end TreeSyntax
