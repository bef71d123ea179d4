import TreeSyntax.Load.Basic
import TreeSyntax.Proofs.Libraries
import TreeSyntax.Proofs.Parsed
import TreeSyntax.Proofs.Trace

/-!
# Nesting bounds the depth

Two grammar steps take at least one container off a node.  So a check never goes deeper than twice
the nesting of its program, and what can be read from a file at all is too shallow to reach a
limit of 254 steps.
-/

namespace TreeSyntax

/-! ## Weights -/

/-- The number of steps that may still lie below a position: two for each container, and one more
while a reference may stand there. -/
def Position.weight (position : Position) : Nat :=
  2 * position.node.nesting + if position.type.allowsReference position.resolved then 1 else 0

private theorem Position.weight_lt_of_nesting_lt {first second : Position}
    (h : second.node.nesting < first.node.nesting) : second.weight < first.weight := by
  have hchoice : (if second.type.allowsReference second.resolved then 1 else 0) ≤ 1 := by
    split <;> decide
  simp only [Position.weight]
  omega

theorem Step.weight_lt {first second : Position} {segments : List String}
    (h : Step first segments second) : second.weight < first.weight := by
  cases h with
  | direct hvariable hnode => simp [Position.weight, NodeType.allowsReference, hvariable]
  | bound hvariable hkeys hflag hindex =>
      exact Position.weight_lt_of_nesting_lt (Json.nesting_lt_of_find? hindex)
  | inlined hvariable hkeys hflag hother hcontent =>
      exact Position.weight_lt_of_nesting_lt (Json.nesting_lt_of_find? hcontent)
  | payload hrule hclosed hkeys hallowed htag hcontent =>
      exact Position.weight_lt_of_nesting_lt (Json.nesting_lt_of_find? hcontent)
  | field hrule hclosed hkeys hfield hsingle hvalue =>
      exact Position.weight_lt_of_nesting_lt (Json.nesting_lt_of_find? hvalue)
  | element hrule hclosed hkeys hfield hlist hvalue hitem =>
      have hitem := Json.nesting_lt_of_getElem? hitem
      have hvalue := Json.nesting_lt_of_find? hvalue
      exact Position.weight_lt_of_nesting_lt (hitem.trans hvalue)

theorem Reaches.steps_add_weight_le {first last : Position} {path : List String} {steps : Nat}
    (h : Reaches first path steps last) : steps + last.weight ≤ first.weight := by
  induction h with
  | refl position => exact (Nat.zero_add _).le
  | step hstep hrest ih =>
      have hless := hstep.weight_lt
      omega

theorem weight_program (program : Json) :
    Position.weight ⟨.program, false, program⟩ = 2 * program.nesting := by
  have hclosed : NodeType.program.allowsReference false = false := by decide
  simp [Position.weight, hclosed]

/-! ## Depths of calls -/

theorem depth_le_of_mem_traceProgram {options : Options} {program : Json} {visit : Visit}
    (h : visit ∈ (traceProgram options program).visits) : visit.depth ≤ 2 * program.nesting := by
  obtain ⟨path, -, hreaches⟩ := reaches_of_mem_traceProgram h
  have hsteps := hreaches.steps_add_weight_le
  rw [weight_program] at hsteps
  omega

/-! ## Programs beyond the limit -/

private theorem Offends.limit_lt_weight {limit : Nat} {root : Position} {path : List String}
    {node : Json} (h : Offends limit root .tooDeep path node) : limit < root.weight := by
  cases h with
  | fault hreaches hsteps hfault => cases hfault
  | tooDeep hreaches =>
      have hsteps := hreaches.steps_add_weight_le
      omega

theorem invalid_of_errorCode {options : Options} {program : Json} {code : ErrorCode}
    (h : (validateSyntax options program).errorCode = some code) :
    ∃ path node, validateSyntax options program = .invalid code (Outcome.rootSegment :: path) ∧
      Offends options.maxDepth ⟨.program, false, program⟩ code path node := by
  have hinvalid : (validateSyntax options program).isValid = false := by
    cases hverdict : checkProgram options program with
    | ok value =>
        simp [validateSyntax, hverdict] at h
    | error failure =>
        simp [validateSyntax, hverdict]
  obtain ⟨other, path, node, houtcome, hoffends⟩ := exists_offence_of_invalid hinvalid
  rw [houtcome] at h
  obtain rfl := Option.some.inj h
  exact ⟨path, node, houtcome, hoffends⟩

theorem limit_lt_of_tooDeep {options : Options} {program : Json}
    (h : (validateSyntax options program).errorCode = some .tooDeep) :
    options.maxDepth < 2 * program.nesting := by
  obtain ⟨path, node, houtcome, hoffends⟩ := invalid_of_errorCode h
  rw [← weight_program]
  exact hoffends.limit_lt_weight

/-! ## Values from files -/

def Json.FromFile (value : Json) : Prop :=
  (∃ files path pointer, loadProgram files path pointer = .ok value) ∨
  ∃ files manifest libraries name,
    loadLibraries files manifest = .ok libraries ∧ (name, value) ∈ libraries

theorem nesting_le_of_loadJson {files : FileTree} {path : String} {value : Json}
    (h : loadJson files path = .ok value) : value.nesting ≤ Json.nestingLimit := by
  rw [loadJson] at h
  split at h
  · cases h
  · split at h
    next parsed hparsed =>
      obtain rfl := Except.ok.inj h
      exact Json.nesting_le_of_parse hparsed
    · cases h

theorem nesting_le_of_loadProgram {files : FileTree} {path : String} {pointer : Option String}
    {value : Json} (h : loadProgram files path pointer = .ok value) :
    value.nesting ≤ Json.nestingLimit := by
  rw [loadProgram] at h
  split at h
  · cases h
  next whole hwhole =>
    cases pointer with
    | none =>
        obtain rfl := Except.ok.inj h
        exact nesting_le_of_loadJson hwhole
    | some pointer =>
        cases hpart : whole.pointer? pointer with
        | none => simp [hpart] at h
        | some part =>
            simp only [hpart, Except.ok.injEq] at h
            subst h
            exact (Json.nesting_le_of_pointer? hpart).trans (nesting_le_of_loadJson hwhole)

private theorem nesting_le_of_loadLibraries {files : FileTree} {manifest : Manifest}
    {libraries : Libraries} (h : loadLibraries files manifest = .ok libraries) :
    ∀ entry ∈ libraries, entry.2.nesting ≤ Json.nestingLimit := by
  induction manifest generalizing libraries with
  | nil =>
      obtain rfl := Except.ok.inj h
      exact List.forall_mem_nil _
  | cons target manifest ih =>
      rw [loadLibraries] at h
      split at h
      · cases h
      next library hlibrary =>
        cases hrest : loadLibraries files manifest with
        | error failure => simp [hrest, Except.map] at h
        | ok rest =>
            simp only [hrest, Except.map, Except.ok.injEq] at h
            subst h
            exact List.forall_mem_cons.mpr ⟨nesting_le_of_loadJson hlibrary, ih hrest⟩

theorem Json.FromFile.nesting_le {value : Json} (h : value.FromFile) :
    value.nesting ≤ nestingLimit := by
  rcases h with ⟨files, path, pointer, hload⟩ | ⟨files, manifest, libraries, name, hload, hmem⟩
  · exact nesting_le_of_loadProgram hload
  · exact nesting_le_of_loadLibraries hload (name, value) hmem

private theorem Json.FromFile.not_tooDeep {options : Options} {program : Json}
    (h : program.FromFile) (hlimit : 254 ≤ options.maxDepth) :
    (validateSyntax options program).errorCode ≠ some .tooDeep := by
  intro hdeep
  have hbeyond := limit_lt_of_tooDeep hdeep
  have hnesting : program.nesting ≤ 127 := h.nesting_le
  omega

/-! ## Reports of depth -/

private theorem Outcome.errorCode_nested (segments : List String) (outcome : Outcome) :
    (outcome.nested segments).errorCode = outcome.errorCode := by
  rw [nested]
  split <;> rfl

private theorem not_fromFile_of_tooDeep {options : Options} {libraries : Option Libraries}
    {input : Json} (hlimit : 254 ≤ options.maxDepth)
    (h : (validateWith options libraries input).errorCode = some .tooDeep) :
    (¬ input.FromFile ∧ ∃ path,
      (validateWith options libraries input).errorPath = Outcome.rootSegment :: path) ∨
    options.checkLibraries = true ∧ ∃ name library, (name, library) ∈ libraries.getD [] ∧
      ¬ library.FromFile ∧ ∃ path, (validateWith options libraries input).errorPath =
        librariesSegment :: name :: Outcome.rootSegment :: path := by
  rcases validateWith_cases options libraries input with
    hscalar | hinput | ⟨hasked, name, library, hlibrary, -, hnested⟩
  · rw [hscalar] at h
    cases h
  · rw [hinput] at h ⊢
    obtain ⟨path, _, houtcome, _⟩ := invalid_of_errorCode h
    exact .inl ⟨fun hfile => hfile.not_tooDeep hlimit h, path, by rw [houtcome]; rfl⟩
  · rw [hnested, Outcome.errorCode_nested] at h
    obtain ⟨path, _, houtcome, _⟩ := invalid_of_errorCode h
    refine .inr ⟨hasked, name, library, hlibrary, fun hfile => hfile.not_tooDeep hlimit h, path, ?_⟩
    rw [hnested, houtcome]
    rfl

/-- Every call of a check is made at a depth of at most twice the nesting of the program.  Hence a
limit of that size is never exceeded, no depth leaves 64 bits, and under a limit of at least 254
nothing that was loaded from a file is reported to be too deep. -/
theorem depth_bounded_by_nesting :
    (∀ options program,
      (traceProgram options program).verdict = checkProgram options program ∧
      (∀ visit ∈ (traceProgram options program).visits, visit.depth ≤ 2 * program.nesting) ∧
      (2 * program.nesting ≤ options.maxDepth →
        (validateSyntax options program).errorCode ≠ some .tooDeep) ∧
      (2 * program.nesting < UInt64.size - 1 →
        ∀ visit ∈ (traceProgram options program).visits,
          (UInt64.ofNat visit.depth + 1).toNat = visit.depth + 1)) ∧
    (∀ options libraries input, 254 ≤ options.maxDepth →
      (validateWith options libraries input).errorCode = some .tooDeep →
        (¬ input.FromFile ∧ ∃ path,
          (validateWith options libraries input).errorPath = Outcome.rootSegment :: path) ∨
        options.checkLibraries = true ∧ ∃ name library, (name, library) ∈ libraries.getD [] ∧
          ¬ library.FromFile ∧ ∃ path, (validateWith options libraries input).errorPath =
            librariesSegment :: name :: Outcome.rootSegment :: path) ∧
    ∀ libraries input, input.FromFile →
      (validate libraries input).errorCode ≠ some .tooDeep := by
  refine ⟨fun options program => ⟨verdict_traceProgram options program,
    fun visit hvisit => depth_le_of_mem_traceProgram hvisit,
    fun hlimit hdeep => Nat.not_lt.mpr hlimit (limit_lt_of_tooDeep hdeep),
    fun hsmall visit hvisit => ?_⟩,
    fun options libraries input hlimit hdeep => not_fromFile_of_tooDeep hlimit hdeep,
    fun libraries input hfile hdeep => ?_⟩
  · have hdepth := depth_le_of_mem_traceProgram hvisit
    have hfits : visit.depth + 1 < UInt64.size := by omega
    rw [UInt64.toNat_add, UInt64.toNat_ofNat_of_lt' (Nat.lt_of_succ_lt hfits), UInt64.toNat_one]
    exact Nat.mod_eq_of_lt hfits
  · rcases not_fromFile_of_tooDeep (by decide) hdeep with ⟨hother, _⟩ | ⟨hasked, _⟩
    · exact hother hfile
    · cases hasked

/-! ## A program beyond the limit -/

/-- Signatures whose domains are signatures again: three steps for two containers. -/
def signatureChain : Nat → Json
  | 0 => .null
  | length + 1 => .object [("discriminator", .string "function-signature"),
      ("payload", .object [("domain", signatureChain length), ("domainParamsCount", .null),
        ("valueParamDomains", .null)])]

def signatureProgram (length : Nat) : Json :=
  .object [("functions", .array [.object [("id", .null), ("function", .object [
    ("name", .null), ("description", .null), ("domainParams", .array []),
    ("valueParams", .array []), ("domain", signatureChain length), ("body", .null)])]])]

def emptyObjectFile : FileTree :=
  .ofContents [("p", some "\x7b\x7d".toUTF8)]

theorem emptyObject_fromFile : (Json.object []).FromFile := by
  have hload : loadProgram emptyObjectFile "p" none = .ok (.object []) := by decide +kernel
  exact .inl ⟨_, _, _, hload⟩

theorem signatureProgram_depth_bounds :
    2 * (signatureProgram 84).nesting ≤ 344 ∧
    (validateSyntax ⟨344, false⟩ (signatureProgram 84)).errorCode ≠ some .tooDeep ∧
    (∀ visit ∈ (traceProgram .default (signatureProgram 84)).visits,
      (UInt64.ofNat visit.depth + 1).toNat = visit.depth + 1) ∧
    254 ≤ Options.default.maxDepth ∧
    (validateWith .default none (signatureProgram 84)).errorCode = some .tooDeep ∧
    ¬ (signatureProgram 84).FromFile ∧
    (Json.object []).FromFile ∧ (validate none (.object [])).errorCode ≠ some .tooDeep := by
  have hnesting : (signatureProgram 84).nesting = 172 := by decide +kernel
  have hlimit : 254 ≤ Options.default.maxDepth := by decide
  have hdeep : (validateWith .default none (signatureProgram 84)).errorCode = some .tooDeep := by
    decide +kernel
  obtain ⟨hprograms, hreports, hfiles⟩ := depth_bounded_by_nesting
  have hroom : 2 * (signatureProgram 84).nesting ≤ 344 := by omega
  have hfits : 2 * (signatureProgram 84).nesting < UInt64.size - 1 := by
    rw [hnesting]
    decide
  refine ⟨hroom, (hprograms ⟨344, false⟩ (signatureProgram 84)).2.2.1 hroom,
    (hprograms .default (signatureProgram 84)).2.2.2 hfits, hlimit, hdeep, ?_,
    emptyObject_fromFile, hfiles none (.object []) emptyObject_fromFile⟩
  rcases hreports .default none (signatureProgram 84) hlimit hdeep with ⟨hother, _⟩ | ⟨hasked, _⟩
  · exact hother
  · cases hasked

end TreeSyntax
