import TreeSyntax.Proofs.Derivation
import TreeSyntax.Proofs.Integral

/-!
# What the primitive types take

Every value has a text, but few texts match a pattern other than that of strings.  A node of any
other primitive type is one scalar inside some number of one-element arrays: the text of a longer
array has a comma, that of an empty one or of a wrapped null is empty, and no pattern matches these.
-/

namespace TreeSyntax

/-! ## Scalars -/

inductive Holds : Json → Json → Prop
  | itself {scalar : Json} (hscalar : scalar.isStructured = false) : Holds scalar scalar
  | array {item scalar : Json} (hitem : Holds item scalar) : Holds (.array [item]) scalar

theorem Holds.isStructured_eq_false {node scalar : Json} (h : Holds node scalar) :
    scalar.isStructured = false := by
  induction h with
  | itself hscalar => exact hscalar
  | array hitem ih => exact ih

inductive ScalarOf : NodeType → Json → Prop
  | digits {text : String} (hne : text ≠ "")
      (hdigits : ∀ character ∈ text.toList, '0' ≤ character ∧ character ≤ '9') :
      ScalarOf .integerLiteral (.string text)
  | integer {value : Int} (hvalue : 0 ≤ value) :
      ScalarOf .integerLiteral (.number (.integer value))
  | float {value : Binary64} (hsign : value.negative = false)
      (hintegral : Binary64.IsIntegral value.rank) :
      ScalarOf .integerLiteral (.number (.float value))
  | bool (value : Bool) : ScalarOf .boolLiteral (.bool value)
  | boolWord {text : String} (hword : text = "true" ∨ text = "false") :
      ScalarOf .boolLiteral (.string text)
  | domainWord {text : String}
      (hword : text = "string" ∨ text = "integer" ∨ text = "bool" ∨ text = "function") :
      ScalarOf .domainLiteral (.string text)

/-- A node that a primitive type takes, with the text it is taken for. -/
inductive Takes : NodeType → Json → String → Prop
  | any (node : Json) : Takes .stringLiteral node node.plainText
  | scalar {type : NodeType} {node scalar : Json} (hscalar : ScalarOf type scalar)
      (hholds : Holds node scalar) : Takes type node scalar.plainText

namespace ScalarOf

variable {type : NodeType} {scalar : Json}

theorem isStructured_eq_false (h : ScalarOf type scalar) : scalar.isStructured = false := by
  cases h <;> rfl

theorem ne_null (h : ScalarOf type scalar) : scalar ≠ .null := by
  cases h <;> exact nofun

end ScalarOf

/-! ## Texts of arrays -/

namespace Json

theorem itemTexts_cons_of_ne_null {item : Json} (h : item ≠ .null) (items : List Json) :
    itemTexts (item :: items) = item.plainText :: itemTexts items := by
  cases item <;> first | rfl | exact absurd rfl h

theorem plainText_singleton_of_ne_null {item : Json} (h : item ≠ .null) :
    (Json.array [item]).plainText = item.plainText := by
  rw [plainText, itemTexts_cons_of_ne_null h]
  rfl

private theorem comma_mem_plainText (first second : Json) (items : List Json) :
    ',' ∈ (Json.array (first :: second :: items)).plainText.toList := by
  have hlonger (item : Json) (items : List Json) :
      ∃ text texts, itemTexts (item :: items) = text :: texts ∧ texts = itemTexts items := by
    cases item <;> exact ⟨_, _, rfl, rfl⟩
  obtain ⟨text, texts, htexts, rfl⟩ := hlonger first (second :: items)
  obtain ⟨text', texts', htexts', -⟩ := hlonger second items
  rw [plainText, htexts, htexts', Text.joined]
  · simp
  · exact nofun

end Json

theorem Holds.plainText_eq {node scalar : Json} (h : Holds node scalar) (hne : scalar ≠ .null) :
    node.plainText = scalar.plainText := by
  induction h with
  | itself hscalar => rfl
  | array hitem ih =>
      rw [Json.plainText_singleton_of_ne_null, ih hne]
      rintro rfl
      cases hitem
      exact hne rfl

/-! ## Patterns that match no joined text -/

structure Pattern.Scalar (pattern : Pattern) : Prop where
  empty : pattern.accepts "" = false
  null : pattern.accepts "null" = false
  object : pattern.accepts "[object Object]" = false
  comma : ∀ text, pattern.accepts text = true → ',' ∉ text.toList

theorem Pattern.scalar_of_rule {type : NodeType} {pattern : Pattern}
    (hrule : type.rule = .primitive pattern) (htype : type ≠ .stringLiteral) :
    pattern.Scalar := by
  have hwords (words : List String) (hcomma : ∀ word ∈ words, ',' ∉ word.toList) :
      ∀ text, (Pattern.oneOf words).accepts text = true → ',' ∉ text.toList := by
    intro text h
    exact hcomma text (by simpa [accepts] using h)
  cases type with
  | stringLiteral => exact absurd rfl htype
  | integerLiteral =>
      cases hrule
      refine ⟨by decide, by decide, by decide, ?_⟩
      intro text h hcomma
      simp only [accepts, Bool.and_eq_true, List.all_eq_true] at h
      exact absurd (h.2 ',' hcomma) (by decide)
  | boolLiteral =>
      cases hrule
      exact ⟨by decide, by decide, by decide, hwords _ (by decide)⟩
  | domainLiteral =>
      cases hrule
      exact ⟨by decide, by decide, by decide, hwords _ (by decide)⟩
  | _ => cases hrule

private theorem exists_holds_of_accepts {pattern : Pattern} (hpattern : pattern.Scalar) :
    ∀ node : Json, pattern.accepts node.plainText = true →
      ∃ scalar, Holds node scalar ∧ scalar ≠ .null
  | .null, h => by
      rw [Json.plainText, hpattern.null] at h
      cases h
  | .object members, h => by
      rw [Json.plainText, hpattern.object] at h
      cases h
  | .bool value, _ => ⟨.bool value, .itself rfl, nofun⟩
  | .number value, _ => ⟨.number value, .itself rfl, nofun⟩
  | .string text, _ => ⟨.string text, .itself rfl, nofun⟩
  | .array [], h => by
      have hempty : (Json.array []).plainText = "" := rfl
      rw [hempty, hpattern.empty] at h
      cases h
  | .array [item], h => by
      by_cases hnull : item = .null
      · have hempty : (Json.array [.null]).plainText = "" := rfl
        rw [hnull, hempty, hpattern.empty] at h
        cases h
      · rw [Json.plainText_singleton_of_ne_null hnull] at h
        obtain ⟨scalar, hholds, hne⟩ := exists_holds_of_accepts hpattern item h
        exact ⟨scalar, .array hholds, hne⟩
  | .array (first :: second :: items), h =>
      absurd (Json.comma_mem_plainText first second items) (hpattern.comma _ h)

/-! ## Patterns on scalars -/

theorem digits_accepts_string_iff (text : String) :
    Pattern.digits.accepts text = true ↔ ScalarOf .integerLiteral (.string text) := by
  simp only [Pattern.accepts, Pattern.isDigit, Bool.and_eq_true, Bool.not_eq_true',
    List.isEmpty_eq_false_iff, List.all_eq_true, decide_eq_true_eq, ne_eq, String.toList_eq_nil_iff]
  constructor
  · rintro ⟨hne, hdigits⟩
    exact .digits hne hdigits
  · intro h
    cases h with
    | digits hne hdigits => exact ⟨hne, hdigits⟩

theorem scalarOf_number_iff (number : Number) :
    ScalarOf .integerLiteral (.number number) ↔ number.IsNatural := by
  constructor
  · intro h
    cases h with
    | integer hvalue => exact ⟨decide_eq_false (Int.not_lt.2 hvalue), trivial⟩
    | float hsign hintegral => exact ⟨hsign, hintegral⟩
  · rintro ⟨hsign, hintegral⟩
    cases number with
    | integer value => exact .integer (Int.not_lt.1 (of_decide_eq_false hsign))
    | float value => exact .float hsign hintegral

theorem digits_accepts_scalar_iff {scalar : Json} (hscalar : scalar.isStructured = false)
    (hne : scalar ≠ .null) :
    Pattern.digits.accepts scalar.plainText = true ↔ ScalarOf .integerLiteral scalar := by
  cases scalar with
  | null => exact absurd rfl hne
  | bool value =>
      refine iff_of_false ?_ nofun
      cases value <;> decide
  | number number => rw [scalarOf_number_iff, ← Number.digits_accepts_text_iff, Json.plainText]
  | string text => exact digits_accepts_string_iff text
  | array items => cases hscalar
  | object members => cases hscalar

/-- No number is written like a word. -/
theorem oneOf_accepts_scalar_iff {words : List String} {scalar : Json}
    (hwords : ∀ word ∈ words, ¬ ∀ character ∈ word.toList, NumberLayout.Numeral character)
    (hscalar : scalar.isStructured = false) (hne : scalar ≠ .null) :
    (Pattern.oneOf words).accepts scalar.plainText = true ↔
      (∃ value, scalar = .bool value ∧ Json.boolText value ∈ words) ∨
        ∃ text ∈ words, scalar = .string text := by
  cases scalar with
  | null => exact absurd rfl hne
  | bool value => simp [Pattern.accepts, Json.plainText]
  | number number =>
      have hnot : number.text .plain ∉ words := by
        intro hmem
        exact hwords _ hmem fun _ => Number.numeral_of_mem_text
      simp [Pattern.accepts, Json.plainText, hnot]
  | string text => simp [Pattern.accepts, Json.plainText]
  | array items => cases hscalar
  | object members => cases hscalar

theorem accepts_scalar_iff {type : NodeType} {pattern : Pattern} {scalar : Json}
    (hrule : type.rule = .primitive pattern) (htype : type ≠ .stringLiteral)
    (hscalar : scalar.isStructured = false) (hne : scalar ≠ .null) :
    pattern.accepts scalar.plainText = true ↔ ScalarOf type scalar := by
  cases type with
  | stringLiteral => exact absurd rfl htype
  | integerLiteral =>
      cases hrule
      exact digits_accepts_scalar_iff hscalar hne
  | boolLiteral =>
      cases hrule
      have hwords : ∀ word ∈ ["true", "false"],
          ¬ ∀ character ∈ word.toList, NumberLayout.Numeral character := by
        simp [NumberLayout.Numeral, Pattern.isDigit]
      rw [oneOf_accepts_scalar_iff hwords hscalar hne]
      constructor
      · rintro (⟨value, rfl, -⟩ | ⟨text, hword, rfl⟩)
        · exact .bool value
        · exact .boolWord (by simpa using hword)
      · intro h
        cases h with
        | bool value => exact .inl ⟨value, rfl, by cases value <;> decide⟩
        | boolWord hword => exact .inr ⟨_, by simpa using hword, rfl⟩
  | domainLiteral =>
      cases hrule
      have hwords : ∀ word ∈ ["string", "integer", "bool", "function"],
          ¬ ∀ character ∈ word.toList, NumberLayout.Numeral character := by
        simp [NumberLayout.Numeral, Pattern.isDigit]
      rw [oneOf_accepts_scalar_iff hwords hscalar hne]
      constructor
      · rintro (⟨value, rfl, hword⟩ | ⟨text, hword, rfl⟩)
        · cases value <;> exact absurd hword (by decide)
        · exact .domainWord (by simpa using hword)
      · intro h
        cases h with
        | domainWord hword => exact .inr ⟨_, by simpa using hword, rfl⟩
  | _ => cases hrule

/-! ## Texts of nodes -/

private theorem accepts_iff_takes {type : NodeType} {pattern : Pattern}
    (hrule : type.rule = .primitive pattern) {node : Json} {text : String} :
    (pattern.accepts node.plainText = true ∧ text = node.plainText) ↔ Takes type node text := by
  by_cases htype : type = .stringLiteral
  · subst htype
    cases hrule
    constructor
    · rintro ⟨-, rfl⟩
      exact .any node
    · intro h
      cases h with
      | any => exact ⟨rfl, rfl⟩
      | scalar hscalar => cases hscalar
  · constructor
    · rintro ⟨haccepts, rfl⟩
      obtain ⟨scalar, hholds, hne⟩ :=
        exists_holds_of_accepts (Pattern.scalar_of_rule hrule htype) node haccepts
      rw [hholds.plainText_eq hne] at haccepts ⊢
      exact .scalar
        ((accepts_scalar_iff hrule htype hholds.isStructured_eq_false hne).1 haccepts) hholds
    · intro h
      cases h with
      | any => exact absurd rfl htype
      | scalar hscalar hholds =>
          rw [hholds.plainText_eq hscalar.ne_null]
          exact ⟨(accepts_scalar_iff hrule htype hscalar.isStructured_eq_false
            hscalar.ne_null).2 hscalar, rfl⟩

theorem Takes.exists_pattern {type : NodeType} {node : Json} {text : String}
    (h : Takes type node text) : ∃ pattern, type.rule = .primitive pattern := by
  cases h with
  | any => exact ⟨_, rfl⟩
  | scalar hscalar => cases hscalar <;> exact ⟨_, rfl⟩

theorem textOf_cases (typeName : String) (node : Json) :
    (∃ (type : NodeType) (pattern : Pattern), type.name = typeName ∧
      type.rule = .primitive pattern ∧ textOf typeName node = pattern.read typeName node) ∨
    ((∀ type : NodeType, type.name = typeName → ∀ pattern, type.rule ≠ .primitive pattern) ∧
      textOf typeName node = Checked.fail (.primitiveMismatch typeName node)) := by
  cases htype : NodeType.ofName? typeName with
  | none =>
      refine .inr ⟨?_, by simp [textOf, htype]⟩
      intro type hname
      rw [NodeType.ofName?_eq_some_iff.2 hname] at htype
      cases htype
  | some type =>
      have hname := NodeType.ofName?_eq_some_iff.1 htype
      cases hrule : type.rule with
      | primitive pattern =>
          exact .inl ⟨type, pattern, hname, hrule, by simp [textOf, htype, hrule]⟩
      | _ =>
          refine .inr ⟨?_, by simp [textOf, htype, hrule]⟩
          intro other hother pattern
          rw [NodeType.name_injective (hother.trans hname.symm), hrule]
          exact nofun

theorem Pattern.read_eq_ok_iff {pattern : Pattern} {expected text : String} {node : Json} :
    pattern.read expected node = .ok text ↔
      pattern.accepts node.plainText = true ∧ text = node.plainText := by
  rw [read]
  cases pattern.accepts node.plainText <;> simp [Checked.fail, eq_comm]

private theorem Pattern.eq_of_read_eq_error {pattern : Pattern} {expected : String} {node : Json}
    {failure : Failure Violation} (h : pattern.read expected node = .error failure) :
    failure = .here (.primitiveMismatch expected node) := by
  rw [read] at h
  split at h
  · cases h
  · exact (Except.error.inj h).symm

theorem textOf_eq_ok_iff {typeName text : String} {node : Json} :
    textOf typeName node = .ok text ↔ ∃ type, type.name = typeName ∧ Takes type node text := by
  rcases textOf_cases typeName node with ⟨type, pattern, rfl, hrule, htext⟩ | ⟨hnone, htext⟩
  · rw [htext, Pattern.read_eq_ok_iff, accepts_iff_takes hrule]
    constructor
    · intro h
      exact ⟨type, rfl, h⟩
    · rintro ⟨other, hother, h⟩
      rwa [NodeType.name_injective hother] at h
  · rw [htext]
    refine iff_of_false (by simp [Checked.fail]) ?_
    rintro ⟨type, hname, h⟩
    obtain ⟨pattern, hrule⟩ := h.exists_pattern
    exact hnone type hname pattern hrule

private theorem eq_of_textOf_eq_error {typeName : String} {node : Json}
    {failure : Failure Violation} (h : textOf typeName node = .error failure) :
    failure = .here (.primitiveMismatch typeName node) := by
  rcases textOf_cases typeName node with ⟨type, pattern, rfl, hrule, htext⟩ | ⟨hnone, htext⟩
  · exact Pattern.eq_of_read_eq_error (htext.symm.trans h)
  · exact (Except.error.inj (htext.symm.trans h)).symm

/-- The text of a node at a type, by name, is exactly what the type takes it for.  In all other
cases, and at every name that is not that of a primitive type, it is refused where it stands. -/
theorem textOf_takes_exactly (typeName : String) (node : Json) :
    (∀ text, textOf typeName node = .ok text ↔
      ∃ type, type.name = typeName ∧ Takes type node text) ∧
    (∀ failure, textOf typeName node = .error failure →
      failure.reason.code = .invalidPrimitive ∧ failure.path = []) ∧
    ((∀ type : NodeType, type.name = typeName → ∀ pattern, type.rule ≠ .primitive pattern) →
      ∃ failure, textOf typeName node = .error failure) := by
  refine ⟨fun _ => textOf_eq_ok_iff, ?_, ?_⟩
  · intro failure hfailure
    rw [eq_of_textOf_eq_error hfailure]
    exact ⟨rfl, rfl⟩
  · intro hnone
    cases htext : textOf typeName node with
    | ok text =>
        obtain ⟨type, hname, htakes⟩ := textOf_eq_ok_iff.1 htext
        obtain ⟨pattern, hrule⟩ := htakes.exists_pattern
        exact absurd hrule (hnone type hname pattern)
    | error failure => exact ⟨failure, rfl⟩

def wrappedOne : Json :=
  .array [.array [.number (.float ⟨false, 1023 * Binary64.binadeSize⟩)]]

theorem wrappedOne_is_integer :
    textOf "integer-literal" wrappedOne = .ok "1" ∧
    ∃ failure, textOf "value" wrappedOne = .error failure ∧
      failure.reason.code = .invalidPrimitive ∧ failure.path = [] := by
  constructor
  · have hintegral : Binary64.IsIntegral (1023 * Binary64.binadeSize) := by decide +kernel
    have htext : (Json.number (.float ⟨false, 1023 * Binary64.binadeSize⟩)).plainText = "1" := by
      decide +kernel
    have htakes : Takes .integerLiteral wrappedOne "1" := by
      rw [← htext]
      exact .scalar (.float rfl hintegral) (.array (.array (.itself rfl)))
    exact ((textOf_takes_exactly "integer-literal" wrappedOne).1 "1").2
      ⟨.integerLiteral, rfl, htakes⟩
  · obtain ⟨-, hfailures, hrefused⟩ := textOf_takes_exactly "value" wrappedOne
    have hnone (type : NodeType) (hname : type.name = "value") (pattern : Pattern) :
        type.rule ≠ .primitive pattern := by
      have htype : type = .value := NodeType.name_injective hname
      rw [htype]
      exact nofun
    obtain ⟨failure, hfailure⟩ := hrefused hnone
    exact ⟨failure, hfailure, hfailures failure hfailure⟩

end TreeSyntax
