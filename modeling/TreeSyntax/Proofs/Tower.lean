import TreeSyntax.Proofs.Cost
import TreeSyntax.Proofs.Keys
import TreeSyntax.Proofs.Limit

/-!
# Towers of expressions

A tower nests one expression in another, level by level, around an integer literal.  Each level
costs three grammar steps: to the value, to its payload and to the operand that goes on.  Neither
the place of the operand nor a reference around it makes a difference, so the depth limit counts
the levels.
-/

namespace TreeSyntax

/-! ## Expressions -/

inductive TaggedWith (tag : NodeType) (payload : Json) : Json → Prop
  | intro {members : Members} (hkeys : HasExactKeys members taggedKeys)
      (htag : Entries.find? members tagKey = some (.string tag.name))
      (hpayload : Entries.find? members payloadKey = some payload) :
      TaggedWith tag payload (.object members)

def Literal (type : NodeType) (node : Json) : Prop :=
  ∃ pattern payload, type.rule = .primitive pattern ∧ pattern.Matches payload.plainText ∧
    TaggedWith type payload node

def literalTypes : List NodeType := [.integerLiteral, .stringLiteral, .boolLiteral]

def LiteralValue (node : Json) : Prop :=
  ∃ type ∈ literalTypes, Literal type node

inductive BoundReference : Json → Prop
  | intro {members : Members} {index : Json} (hkeys : HasExactKeys members referenceKeys)
      (hflag : Entries.find? members referenceFlagKey = some (.string "true"))
      (hindex : Entries.find? members referenceKey = some index)
      (hdigits : Pattern.digits.Matches index.plainText) : BoundReference (.object members)

/-- An expression stands for itself or is given in place, inside a reference. -/
inductive GivenAs (expression : Json) : Json → Prop
  | bare : GivenAs expression expression
  | inPlace {members : Members} {flag : Json} (hkeys : HasExactKeys members referenceKeys)
      (hflag : Entries.find? members referenceFlagKey = some flag) (hother : flag ≠ .string "true")
      (hcontent : Entries.find? members referenceKey = some expression) :
      GivenAs expression (.object members)

/-! ## Towers -/

def branchKeys : List String := ["condition", "if", "else"]

/-- One level: an expression around an operand, all of whose other operands are literals. -/
inductive Nests (operand : Json) : Json → Prop
  | branch {node domain : Json} {parts : Members} {key : String}
      (hnode : TaggedWith .ifelse (.object parts) node)
      (hkeys : HasExactKeys parts NodeType.ifelse.ownKeys)
      (hdomain : Entries.find? parts "domain" = some domain)
      (hdomainLiteral : Literal .domainLiteral domain)
      (hkey : key ∈ branchKeys) (hoperand : Entries.find? parts key = some operand)
      (hothers : ∀ other ∈ branchKeys, other ≠ key →
        ∃ value, Entries.find? parts other = some value ∧ LiteralValue value) :
      Nests operand node
  | argument {node callee : Json} {parts : Members} {before after domains : List Json}
      (hnode : TaggedWith .application (.object parts) node)
      (hkeys : HasExactKeys parts NodeType.application.ownKeys)
      (hcallee : Entries.find? parts "function" = some callee) (hbound : BoundReference callee)
      (hvalues : Entries.find? parts "valueArgs" = some (.array (before ++ operand :: after)))
      (hothers : ∀ other ∈ before ++ after, LiteralValue other)
      (hdomains : Entries.find? parts "domainArgs" = some (.array domains))
      (hdomainLiterals : ∀ domain ∈ domains, Literal .domainLiteral domain) :
      Nests operand node

inductive Tower : Nat → Json → Prop
  | bottom {node : Json} (hnode : Literal .integerLiteral node) : Tower 0 node
  | level {levels : Nat} {inner operand node : Json} (hinner : Tower levels inner)
      (hgiven : GivenAs inner operand) (hnests : Nests operand node) : Tower (levels + 1) node

inductive SingleFunction (body : Json) : Json → Prop
  | intro {program definition function : Members} {domain : Json}
      (hprogram : HasExactKeys program NodeType.program.ownKeys)
      (hfunctions : Entries.find? program "functions" = some (.array [.object definition]))
      (hdefinition : HasExactKeys definition NodeType.functionDefinition.ownKeys)
      (hfunction : Entries.find? definition "function" = some (.object function))
      (hkeys : HasExactKeys function NodeType.function.ownKeys)
      (hdomainParams : Entries.find? function "domainParams" = some (.array []))
      (hvalueParams : Entries.find? function "valueParams" = some (.array []))
      (hdomain : Entries.find? function "domain" = some domain)
      (hdomainLiteral : Literal .domainLiteral domain)
      (hbody : Entries.find? function "body" = some body) :
      SingleFunction body (.object program)

/-! ## What expressions cost -/

section

variable {type tag : NodeType} {tags : List NodeType} {payload node : Json} {steps : Nat}

theorem TaggedWith.isReference (h : TaggedWith tag payload node) : isReference node = false := by
  obtain ⟨hkeys, htag, hpayload⟩ := h
  exact isReference_of_notMem hkeys (by decide)

theorem TaggedWith.costs (h : TaggedWith tag payload node) (hrule : type.rule = .union tags)
    (hallowed : tag ∈ tags) (hpart : Costs tag false payload steps) :
    Costs type true node (steps + 1) := by
  obtain ⟨hkeys, htag, hpayload⟩ := h
  exact hpart.payload hrule type.allowsReference_resolved hkeys hallowed htag hpayload

theorem Literal.costs (h : Literal tag node) (hvariable : type.isVariable = true)
    (hrule : type.rule = .union tags) (hallowed : tag ∈ tags) : Costs type false node 2 := by
  obtain ⟨pattern, payload, hprimitive, hmatches, hnode⟩ := h
  have hvalue := hnode.costs hrule hallowed (.primitive hprimitive hmatches)
  exact hvalue.direct hvariable hnode.isReference

theorem Literal.domain_costs (h : Literal .domainLiteral node) : Costs .domain false node 2 :=
  h.costs rfl rfl (by decide)

theorem LiteralValue.costs (h : LiteralValue node) : Costs .value false node 2 := by
  obtain ⟨literal, hliteral, hnode⟩ := h
  have hallowed : ∀ tag ∈ literalTypes, tag ∈ [NodeType.application, .ifelse, .function,
      .integerLiteral, .stringLiteral, .boolLiteral] := by decide
  exact hnode.costs rfl rfl (hallowed literal hliteral)

theorem BoundReference.costs (h : BoundReference node) : Costs .function false node 1 := by
  obtain ⟨hkeys, hflag, hindex, hdigits⟩ := h
  exact .bound rfl hkeys hflag hindex (.primitive rfl hdigits)

/-- A reference around an expression takes the step that the expression would take itself. -/
theorem GivenAs.costs {given : Json} (h : GivenAs node given) (hvariable : type.isVariable = true)
    (hnode : isReference node = false) (hsame : Costs type true node steps) :
    Costs type false given (steps + 1) := by
  cases h with
  | bare => exact hsame.direct hvariable hnode
  | inPlace hkeys hflag hother hcontent =>
      exact hsame.inlined hvariable hkeys hflag hother hcontent

end

/-! ## What a level costs -/

section

variable {operand : Json} {parts : Members} {steps : Nat}
  (hoperand : Costs .value false operand steps) (hsteps : 2 ≤ steps)

include hoperand hsteps

private theorem costs_ifelse {domain : Json} {key : String}
    (hkeys : HasExactKeys parts NodeType.ifelse.ownKeys)
    (hdomain : Entries.find? parts "domain" = some domain)
    (hliteral : Literal .domainLiteral domain) (hkey : key ∈ branchKeys)
    (hvalue : Entries.find? parts key = some operand)
    (hothers : ∀ other ∈ branchKeys, other ≠ key →
      ∃ value, Entries.find? parts other = some value ∧ LiteralValue value) :
    Costs .ifelse false (.object parts) (steps + 1) := by
  have hdearest : FieldCosts parts (.one key .value) (steps + 1) := .single rfl hvalue hoperand
  have hbranches : ∀ other ∈ branchKeys,
      FieldCostsAtMost parts (.one other .value) (steps + 1) := by
    intro other hother
    by_cases hsame : other = key
    · rw [hsame]
      exact hdearest.atMost
    · obtain ⟨value, hfound, hvalue⟩ := hothers other hother hsame
      exact .single rfl hfound (hvalue.costs.atMost hsteps) (Nat.lt_succ_self steps)
  have hfield : FieldRule.one key .value ∈ [FieldRule.one "domain" .domain,
      .one "condition" .value, .one "if" .value, .one "else" .value] := by
    simp only [branchKeys, List.mem_cons, List.not_mem_nil, or_false] at hkey
    rcases hkey with rfl | rfl | rfl <;> decide
  refine .record rfl rfl hkeys hfield hdearest ?_
  simp only [branchKeys, List.forall_mem_cons] at hbranches ⊢
  obtain ⟨hcondition, hthen, helse, -⟩ := hbranches
  exact ⟨.single rfl hdomain (hliteral.domain_costs.atMost hsteps) (Nat.lt_succ_self steps),
    hcondition, hthen, helse, List.forall_mem_nil _⟩

private theorem costs_application {callee : Json} {before after domains : List Json}
    (hkeys : HasExactKeys parts NodeType.application.ownKeys)
    (hcallee : Entries.find? parts "function" = some callee) (hbound : BoundReference callee)
    (hvalues : Entries.find? parts "valueArgs" = some (.array (before ++ operand :: after)))
    (hothers : ∀ other ∈ before ++ after, LiteralValue other)
    (hdomains : Entries.find? parts "domainArgs" = some (.array domains))
    (hliterals : ∀ domain ∈ domains, Literal .domainLiteral domain) :
    Costs .application false (.object parts) (steps + 1) := by
  have hlt := Nat.lt_succ_self steps
  have hdearest : FieldCosts parts (.many "valueArgs" .value) (steps + 1) :=
    .list rfl hvalues hoperand fun other hother => (hothers other hother).costs.atMost hsteps
  have hfunction : FieldCostsAtMost parts (.one "function" .function) (steps + 1) :=
    .single rfl hcallee (hbound.costs.atMost (by omega : 1 ≤ steps)) hlt
  have hdomainArgs : FieldCostsAtMost parts (.many "domainArgs" .domain) (steps + 1) :=
    .list rfl hdomains (fun domain hdomain =>
      (hliterals domain hdomain).domain_costs.atMost hsteps) hlt
  refine .record rfl rfl hkeys (List.mem_cons_of_mem _ List.mem_cons_self) hdearest ?_
  simp only [List.forall_mem_cons]
  exact ⟨hfunction, hdearest.atMost, hdomainArgs, List.forall_mem_nil _⟩

/-- A level is two steps dearer as a value than its operand, once it is known to be no reference. -/
theorem Nests.costs {node : Json} (h : Nests operand node) :
    Costs .value true node (steps + 2) ∧ isReference node = false := by
  cases h with
  | branch hnode hkeys hdomain hliteral hkey hvalue hothers =>
      have hparts := costs_ifelse hoperand hsteps hkeys hdomain hliteral hkey hvalue hothers
      exact ⟨hnode.costs rfl (by decide) hparts, hnode.isReference⟩
  | argument hnode hkeys hcallee hbound hvalues hothers hdomains hliterals =>
      have hparts :=
        costs_application hoperand hsteps hkeys hcallee hbound hvalues hothers hdomains hliterals
      exact ⟨hnode.costs rfl (by decide) hparts, hnode.isReference⟩

end

theorem Tower.costs {levels : Nat} {node : Json} (h : Tower levels node) :
    Costs .value true node (3 * levels + 1) ∧ isReference node = false := by
  induction h with
  | bottom hnode =>
      obtain ⟨pattern, payload, hprimitive, hmatches, hnode⟩ := hnode
      exact ⟨hnode.costs rfl (by decide) (.primitive hprimitive hmatches), hnode.isReference⟩
  | @level levels inner operand node hinner hgiven hnests ih =>
      have hoperand : Costs .value false operand (3 * levels + 1 + 1) :=
        hgiven.costs rfl ih.2 ih.1
      exact hnests.costs hoperand (by omega)

/-! ## What the program costs -/

section

variable {steps : Nat}

private theorem costs_function {function : Members} {domain body : Json}
    (hkeys : HasExactKeys function NodeType.function.ownKeys)
    (hdomainParams : Entries.find? function "domainParams" = some (.array []))
    (hvalueParams : Entries.find? function "valueParams" = some (.array []))
    (hdomain : Entries.find? function "domain" = some domain)
    (hliteral : Literal .domainLiteral domain)
    (hfound : Entries.find? function "body" = some body)
    (hbody : Costs .value false body steps) (hsteps : 2 ≤ steps) :
    Costs .function false (.object function) (steps + 2) := by
  have hpos := Nat.succ_pos steps
  have hdearest : FieldCosts function (.one "body" .value) (steps + 1) := .single rfl hfound hbody
  have hrecord : Costs .function true (.object function) (steps + 1) := by
    refine .record rfl rfl hkeys (by decide) hdearest ?_
    simp only [List.forall_mem_cons]
    refine ⟨?_, ?_, ?_, ?_, ?_, hdearest.atMost, List.forall_mem_nil _⟩
    · exact .text rfl rfl ((hkeys "name").mpr (by decide)) hpos
    · exact .text rfl rfl ((hkeys "description").mpr (by decide)) hpos
    · exact .list rfl hdomainParams (List.forall_mem_nil _) hpos
    · exact .list rfl hvalueParams (List.forall_mem_nil _) hpos
    · exact .single rfl hdomain (hliteral.domain_costs.atMost hsteps) (Nat.lt_succ_self steps)
  exact hrecord.direct rfl (isReference_of_notMem hkeys (by decide))

private theorem costs_functionDefinition {definition : Members} {function : Json}
    (hkeys : HasExactKeys definition NodeType.functionDefinition.ownKeys)
    (hfound : Entries.find? definition "function" = some function)
    (hfunction : Costs .function false function steps) :
    Costs .functionDefinition false (.object definition) (steps + 1) := by
  have hdearest : FieldCosts definition (.one "function" .function) (steps + 1) :=
    .single rfl hfound hfunction
  refine .record rfl rfl hkeys (by decide) hdearest ?_
  simp only [List.forall_mem_cons]
  refine ⟨?_, hdearest.atMost, List.forall_mem_nil _⟩
  exact .text rfl rfl ((hkeys "id").mpr (by decide)) (Nat.succ_pos steps)

private theorem costs_program {program : Members} {definition : Json}
    (hkeys : HasExactKeys program NodeType.program.ownKeys)
    (hfound : Entries.find? program "functions" = some (.array [definition]))
    (hdefinition : Costs .functionDefinition false definition steps) :
    Costs .program false (.object program) (steps + 1) := by
  have hdearest : FieldCosts program (.many "functions" .functionDefinition) (steps + 1) :=
    @FieldCosts.list _ _ _ [] [] _ rfl hfound hdefinition (List.forall_mem_nil _)
  refine .record rfl rfl hkeys List.mem_cons_self hdearest ?_
  simp only [List.forall_mem_cons]
  exact ⟨hdearest.atMost, List.forall_mem_nil _⟩

theorem SingleFunction.costs {body program : Json} (h : SingleFunction body program)
    (hbody : Costs .value false body steps) (hsteps : 2 ≤ steps) :
    Costs .program false program (steps + 4) := by
  obtain ⟨hprogram, hfunctions, hdefinition, hfunction, hkeys, hdomainParams, hvalueParams,
    hdomain, hliteral, hfound⟩ := h
  have hnode := costs_function hkeys hdomainParams hvalueParams hdomain hliteral hfound hbody hsteps
  exact costs_program hprogram hfunctions (costs_functionDefinition hdefinition hfunction hnode)

end

/-! ## The depth limit -/

private theorem Deepened.eq_nil_or_tooDeep {low high : Failures} (h : Deepened low high)
    (hhigh : high = []) : low = [] ∨ ∃ path rest, low = ⟨.tooDeep, path⟩ :: rest := by
  cases h with
  | nil => exact .inl rfl
  | same failure hrest => cases hhigh
  | deeper hfound hrest => exact .inr ⟨_, _, rfl⟩

/-- A program that costs a number of steps is accepted with a limit of that many, and too deep for
any lower one. -/
theorem Costs.validateSyntax {program : Json} {steps : Nat}
    (h : Costs .program false program steps) (options : Options) :
    ((validateSyntax options program).isValid = true ↔ steps ≤ options.maxDepth) ∧
    (options.maxDepth < steps → ∃ path,
      validateSyntax options program = .invalid .tooDeep (Outcome.rootSegment :: path)) := by
  simp only [validateSyntax_eq_outcome, Failures.isValid_outcome_iff]
  have hcollect := h (options.maxDepth + 1)
  rw [Nat.lt_succ_iff] at hcollect
  refine ⟨hcollect, fun hlow => ?_⟩
  have hdeepened := deepened_collect (Nat.succ_le_succ (Nat.le_of_lt hlow)) .program false program
  rcases hdeepened.eq_nil_or_tooDeep ((h (steps + 1)).mpr (Nat.lt_succ_self steps)) with
    hnone | ⟨path, rest, hdeep⟩
  · exact absurd (hcollect.mp hnone) (Nat.not_le.mpr hlow)
  · exact ⟨path, by rw [collectProgram, hdeep]; rfl⟩

/-- A program whose body is a tower is valid exactly under a limit of six steps and three more for
each level, and too deep under any lower limit.  The default admits 83 levels. -/
theorem each_level_costs_three_steps {levels : Nat} {tower body program : Json}
    (htower : Tower levels tower) (hgiven : GivenAs tower body)
    (hprogram : SingleFunction body program) :
    (∀ options : Options,
      ((validateSyntax options program).isValid = true ↔ 6 + 3 * levels ≤ options.maxDepth) ∧
      (¬ 6 + 3 * levels ≤ options.maxDepth → ∃ path,
        validateSyntax options program = .invalid .tooDeep (Outcome.rootSegment :: path))) ∧
    ((validateSyntax .default program).isValid = true ↔ levels ≤ 83) := by
  have hbody : Costs .value false body (3 * levels + 1 + 1) :=
    hgiven.costs rfl htower.costs.2 htower.costs.1
  have hcosts := hprogram.costs hbody (by omega)
  have hsteps : 3 * levels + 1 + 1 + 4 = 6 + 3 * levels := by omega
  rw [hsteps] at hcosts
  refine ⟨fun options => ?_, ?_⟩
  · rw [Nat.not_le]
    exact hcosts.validateSyntax options
  · have hdefault : Options.default.maxDepth = 256 := rfl
    rw [(hcosts.validateSyntax .default).1, hdefault]
    omega

/-! ## Towers of any height -/

def taggedNode (type : NodeType) (payload : Json) : Json :=
  .object [(tagKey, .string type.name), (payloadKey, payload)]

def integerOne : Json := taggedNode .integerLiteral (.string "1")

def integerDomain : Json := taggedNode .domainLiteral (.string "integer")

def choiceOf (operand : Json) : Json :=
  taggedNode .ifelse (.object [("domain", integerDomain),
    ("condition", taggedNode .boolLiteral (.string "true")), ("if", operand), ("else", integerOne)])

def applicationTo (operand : Json) : Json :=
  taggedNode .application (.object [("function", referenceNode (.string "true") (.string "0")),
    ("valueArgs", .array [integerOne, operand]), ("domainArgs", .array [integerDomain])])

def alternation : Nat → Json
  | 0 => integerOne
  | levels + 1 =>
      if levels % 2 = 0 then choiceOf (alternation levels)
      else applicationTo (referenceNode (.bool true) (alternation levels))

def constantProgram (body : Json) : Json :=
  .object [("functions", .array [.object [("id", .string "f"), ("function", .object [
    ("name", .string "f"), ("description", .string ""), ("domainParams", .array []),
    ("valueParams", .array []), ("domain", integerDomain), ("body", body)])]])]

theorem taggedWith_taggedNode (type : NodeType) (payload : Json) :
    TaggedWith type payload (taggedNode type payload) :=
  ⟨fun _ => Iff.rfl, rfl, rfl⟩

theorem literal_taggedNode {type : NodeType} {pattern : Pattern} {text : String}
    (hrule : type.rule = .primitive pattern) (haccepts : pattern.accepts text = true) :
    Literal type (taggedNode type (.string text)) :=
  ⟨pattern, .string text, hrule, Pattern.accepts_iff_matches.mp haccepts,
    taggedWith_taggedNode type (.string text)⟩

theorem literal_integerOne : Literal .integerLiteral integerOne :=
  literal_taggedNode rfl (by decide)

theorem literalValue_integerOne : LiteralValue integerOne :=
  ⟨.integerLiteral, by decide, literal_integerOne⟩

theorem literal_integerDomain : Literal .domainLiteral integerDomain :=
  literal_taggedNode rfl (by decide)

private theorem nests_choiceOf (operand : Json) : Nests operand (choiceOf operand) := by
  have hkey : "if" ∈ branchKeys := by decide
  refine .branch (taggedWith_taggedNode .ifelse _) (fun _ => Iff.rfl) rfl literal_integerDomain
    hkey rfl ?_
  intro other hother hne
  simp only [branchKeys, List.mem_cons, List.not_mem_nil, or_false] at hother
  rcases hother with rfl | rfl | rfl
  · exact ⟨_, rfl, .boolLiteral, by decide, literal_taggedNode rfl (by decide)⟩
  · exact absurd rfl hne
  · exact ⟨integerOne, rfl, literalValue_integerOne⟩

private theorem nests_applicationTo (operand : Json) : Nests operand (applicationTo operand) := by
  have hbound : BoundReference (referenceNode (.string "true") (.string "0")) :=
    ⟨fun _ => Iff.rfl, rfl, rfl, Pattern.accepts_iff_matches.mp (by decide)⟩
  refine @Nests.argument _ _ _ _ [integerOne] [] _ (taggedWith_taggedNode .application _)
    (fun _ => Iff.rfl) rfl hbound rfl ?_ rfl ?_
  · simp [literalValue_integerOne]
  · simp [literal_integerDomain]

private theorem tower_alternation (levels : Nat) : Tower levels (alternation levels) := by
  induction levels with
  | zero => exact .bottom literal_integerOne
  | succ levels ih =>
      rw [alternation]
      split
      · exact ih.level .bare (nests_choiceOf _)
      · refine ih.level ?_ (nests_applicationTo _)
        exact .inPlace (fun _ => Iff.rfl) rfl nofun rfl

private theorem singleFunction_constantProgram (body : Json) :
    SingleFunction body (constantProgram body) :=
  ⟨fun _ => Iff.rfl, rfl, fun _ => Iff.rfl, rfl, fun _ => Iff.rfl, rfl, rfl, rfl,
    literal_integerDomain, rfl⟩

theorem alternation_at_default_limit :
    (Tower 83 (alternation 83) ∧ GivenAs (alternation 83) (alternation 83) ∧
      SingleFunction (alternation 83) (constantProgram (alternation 83)) ∧
      (validateSyntax .default (constantProgram (alternation 83))).isValid = true) ∧
    Tower 84 (alternation 84) ∧ GivenAs (alternation 84) (alternation 84) ∧
      SingleFunction (alternation 84) (constantProgram (alternation 84)) ∧
      ∃ path, validateSyntax .default (constantProgram (alternation 84)) =
        .invalid .tooDeep (Outcome.rootSegment :: path) := by
  have hprogram := singleFunction_constantProgram
  have hlow := each_level_costs_three_steps (tower_alternation 83) .bare (hprogram _)
  have hhigh := each_level_costs_three_steps (tower_alternation 84) .bare (hprogram _)
  exact ⟨⟨tower_alternation 83, .bare, hprogram _, hlow.2.mpr (by decide)⟩, tower_alternation 84,
    .bare, hprogram _, (hhigh.1 .default).2 (by decide)⟩

end TreeSyntax
