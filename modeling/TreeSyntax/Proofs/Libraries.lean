import TreeSyntax.Proofs.Derivation
import TreeSyntax.Proofs.ErrorPath

/-!
# Programs with libraries

An outcome has one of three origins: the input is no structured value, a library that was to be
checked fails, or the program itself was checked.  The first failing library decides, so the order
of the libraries changes which failure is told and never whether there is one.
-/

namespace TreeSyntax

@[simp] theorem isValid_validateSyntax_iff {options : Options} {program : Json} :
    (validateSyntax options program).isValid = true ↔ checkProgram options program = .ok () :=
  isValid_ofVerdict_iff

/-! ## The first failing library -/

def Libraries.AllValid (options : Options) (libraries : Libraries) : Prop :=
  ∀ entry ∈ libraries, (validateSyntax options entry.2).isValid = true

@[simp] theorem failingLibrary?_eq_none_iff {options : Options} {libraries : Libraries} :
    failingLibrary? options libraries = none ↔ libraries.AllValid options := by
  induction libraries with
  | nil => simp [failingLibrary?, Libraries.AllValid]
  | cons entry libraries ih =>
      rw [Libraries.AllValid, List.forall_mem_cons, ← Libraries.AllValid, ← ih,
        isValid_validateSyntax_iff, failingLibrary?]
      cases checkProgram options entry.2 with
      | error failure => simp
      | ok value => simp

theorem failingLibrary?_of_first {options : Options} {libraries before after : Libraries}
    {name : String} {library : Json} {failure : Failure Violation}
    (hlibraries : libraries = before ++ (name, library) :: after)
    (hbefore : before.AllValid options) (hfailure : checkProgram options library = .error failure) :
    failingLibrary? options libraries = some (name, failure) := by
  subst hlibraries
  induction before with
  | nil => simp only [List.nil_append, failingLibrary?, hfailure]
  | cons entry before ih =>
      obtain ⟨hentry, hbefore⟩ := List.forall_mem_cons.mp hbefore
      rw [isValid_validateSyntax_iff] at hentry
      simp only [List.cons_append, failingLibrary?, hentry]
      exact ih hbefore

theorem exists_split_of_failingLibrary? {options : Options} {libraries : Libraries}
    {name : String} {failure : Failure Violation}
    (h : failingLibrary? options libraries = some (name, failure)) :
    ∃ before library after, libraries = before ++ (name, library) :: after ∧
      Libraries.AllValid options before ∧ checkProgram options library = .error failure := by
  induction libraries with
  | nil => cases h
  | cons entry libraries ih =>
      obtain ⟨first, library⟩ := entry
      cases hfirst : checkProgram options library with
      | error found =>
          simp only [failingLibrary?, hfirst, Option.some.injEq, Prod.mk.injEq] at h
          obtain ⟨rfl, rfl⟩ := h
          exact ⟨[], library, libraries, rfl, List.forall_mem_nil _, hfirst⟩
      | ok value =>
          simp only [failingLibrary?, hfirst] at h
          obtain ⟨before, failing, after, rfl, hbefore, hfailure⟩ := ih h
          refine ⟨(first, library) :: before, failing, after, rfl, ?_, hfailure⟩
          exact List.forall_mem_cons.mpr ⟨isValid_validateSyntax_iff.mpr hfirst, hbefore⟩

theorem exists_of_failingLibrary? {options : Options} {libraries : Libraries} {name : String}
    {failure : Failure Violation} (h : failingLibrary? options libraries = some (name, failure)) :
    ∃ library, (name, library) ∈ libraries ∧ checkProgram options library = .error failure := by
  obtain ⟨before, library, after, rfl, -, hfailure⟩ := exists_split_of_failingLibrary? h
  exact ⟨library, List.mem_append_right before List.mem_cons_self, hfailure⟩

/-! ## Origins of an outcome -/

section

variable {options : Options} {libraries : Option Libraries} {input : Json}

theorem validateWith_of_scalar (hscalar : input.isStructured = false) :
    validateWith options libraries input = .invalid .invalidInput [] := by
  simp [validateWith, review, hscalar, Review.outcome]

theorem validateWith_of_trusted (hinput : input.isStructured = true)
    (htrusted : options.checkLibraries = false) :
    validateWith options libraries input = validateSyntax options input := by
  simp [validateWith, review, hinput, htrusted, Review.outcome, validateSyntax]

theorem validateWith_of_allValid (hinput : input.isStructured = true)
    (hvalid : (libraries.getD []).AllValid options) :
    validateWith options libraries input = validateSyntax options input := by
  have hnone := failingLibrary?_eq_none_iff.mpr hvalid
  simp [validateWith, review, hinput, hnone, Review.outcome, validateSyntax]

theorem validateWith_of_failing {name : String} {library : Json} {failure : Failure Violation}
    (hinput : input.isStructured = true) (hasked : options.checkLibraries = true)
    (hfailing : failingLibrary? options (libraries.getD []) = some (name, failure))
    (hfailure : checkProgram options library = .error failure) :
    validateWith options libraries input =
      (validateSyntax options library).nested [librariesSegment, name] := by
  simp only [validateWith, review, hinput, hasked, hfailing, validateSyntax, hfailure, if_true]
  rfl

private theorem checkProgram_eq_error_of_invalid {program : Json}
    (h : (validateSyntax options program).isValid = false) :
    ∃ failure, checkProgram options program = .error failure := by
  cases hverdict : checkProgram options program with
  | ok value => simp [isValid_validateSyntax_iff.mpr hverdict] at h
  | error failure => exact ⟨failure, rfl⟩

/-- The first failing library gives its code, and its own path after its name. -/
private theorem validateWith_of_first_invalid {before after : Libraries} {name : String}
    {library : Json} (hinput : input.isStructured = true) (hasked : options.checkLibraries = true)
    (hlibraries : libraries.getD [] = before ++ (name, library) :: after)
    (hbefore : before.AllValid options)
    (hinvalid : (validateSyntax options library).isValid = false) :
    ∃ code path node,
      validateSyntax options library = .invalid code (Outcome.rootSegment :: path) ∧
      validateWith options libraries input =
        .invalid code (librariesSegment :: name :: Outcome.rootSegment :: path) ∧
      Offends options.maxDepth ⟨.program, false, library⟩ code path node := by
  obtain ⟨failure, hfailure⟩ := checkProgram_eq_error_of_invalid hinvalid
  obtain ⟨code, path, node, houtcome, hoffends⟩ := exists_offence_of_invalid hinvalid
  have hfailing := failingLibrary?_of_first hlibraries hbefore hfailure
  refine ⟨code, path, node, houtcome, ?_, hoffends⟩
  rw [validateWith_of_failing hinput hasked hfailing hfailure, houtcome]
  rfl

/-- An outcome tells about the input, or about a library that the options ask to check. -/
theorem validateWith_cases (options : Options) (libraries : Option Libraries) (input : Json) :
    validateWith options libraries input = .invalid .invalidInput [] ∨
    validateWith options libraries input = validateSyntax options input ∨
    options.checkLibraries = true ∧ ∃ name library, (name, library) ∈ libraries.getD [] ∧
      (validateSyntax options library).isValid = false ∧
      validateWith options libraries input =
        (validateSyntax options library).nested [librariesSegment, name] := by
  cases hinput : input.isStructured with
  | false => exact .inl (validateWith_of_scalar hinput)
  | true =>
      cases hasked : options.checkLibraries with
      | false => exact .inr (.inl (validateWith_of_trusted hinput hasked))
      | true =>
          cases hfailing : failingLibrary? options (libraries.getD []) with
          | none =>
              have hvalid := failingLibrary?_eq_none_iff.mp hfailing
              exact .inr (.inl (validateWith_of_allValid hinput hvalid))
          | some failing =>
              obtain ⟨library, hlibrary, hfailure⟩ := exists_of_failingLibrary? hfailing
              refine .inr (.inr ⟨rfl, failing.1, library, hlibrary, ?_, ?_⟩)
              · simp [← Bool.not_eq_true, hfailure]
              · exact validateWith_of_failing hinput hasked hfailing hfailure

end

/-! ## The order of the libraries -/

theorem Libraries.AllValid.perm {options : Options} {libraries libraries' : Libraries}
    (hperm : libraries.Perm libraries') (h : libraries.AllValid options) :
    libraries'.AllValid options := by
  intro entry hentry
  exact h entry (hperm.mem_iff.mpr hentry)

theorem isValid_validateWith_iff {options : Options} {libraries : Option Libraries}
    {input : Json} :
    (validateWith options libraries input).isValid = true ↔
      input.isStructured = true ∧
      (options.checkLibraries = true → (libraries.getD []).AllValid options) ∧
      (validateSyntax options input).isValid = true := by
  cases hinput : input.isStructured with
  | false => simp [validateWith_of_scalar hinput]
  | true =>
      cases hasked : options.checkLibraries with
      | false => simp [validateWith_of_trusted hinput hasked]
      | true =>
          cases hfailing : failingLibrary? options (libraries.getD []) with
          | none =>
              have hvalid := failingLibrary?_eq_none_iff.mp hfailing
              simp [validateWith_of_allValid hinput hvalid, hvalid]
          | some failing =>
              obtain ⟨library, hlibrary, hfailure⟩ := exists_of_failingLibrary? hfailing
              have hinvalid : ¬ (libraries.getD []).AllValid options := by
                rw [← failingLibrary?_eq_none_iff, hfailing]
                simp
              rw [validateWith_of_failing hinput hasked hfailing hfailure]
              simp [hinvalid, validateSyntax, hfailure, Outcome.nested]

/-! ## Where an outcome can be located -/

theorem locate?_nested_libraries (outcome : Outcome) (name : String) (input : Json)
    (hinvalid : outcome.isValid = false) :
    (outcome.nested [librariesSegment, name]).locate? input = none := by
  have hother : librariesSegment ≠ Outcome.rootSegment := by decide
  simp [Outcome.nested, hinvalid, Outcome.locate?, hother]

theorem locate?_isSome_iff {options : Options} {libraries : Option Libraries} {input : Json}
    (haddressable : input.Addressable) :
    ((validateWith options libraries input).locate? input).isSome = true ↔
      (validateWith options libraries input).isValid = false ∧
      ∃ path, (validateWith options libraries input).errorPath = Outcome.rootSegment :: path := by
  rcases validateWith_cases options libraries input with
    hscalar | hinput | ⟨-, name, library, -, hinvalid, hnested⟩
  · simp [hscalar, Outcome.locate?]
  · rw [hinput]
    cases hvalid : (validateSyntax options input).isValid with
    | true =>
        have hok := isValid_validateSyntax_iff.mp hvalid
        simp [validateSyntax, hok, Outcome.locate?]
    | false =>
        obtain ⟨code, path, node, houtcome, hoffends⟩ := exists_offence_of_invalid hvalid
        have hfollow : input.follow? path = some node := hoffends.follow? haddressable
        simp [houtcome, Outcome.locate?, hfollow]
  · rw [hnested, locate?_nested_libraries _ name input hinvalid]
    have hother : librariesSegment ≠ Outcome.rootSegment := by decide
    simp [Outcome.nested, hinvalid, hother]

/-- Where the outcome of a validation comes from, whatever libraries there are. -/
theorem validateWith_reports_first_origin (options : Options) (libraries : Option Libraries)
    (input : Json) :
    (input.isStructured = false →
      validateWith options libraries input = .invalid .invalidInput []) ∧
    (input.isStructured = true → options.checkLibraries = false →
      validateWith options libraries input = validateSyntax options input ∧
      ∀ libraries', validateWith options libraries' input =
        validateWith options libraries input) ∧
    (input.isStructured = true → options.checkLibraries = true →
      (∀ (before : Libraries) name library after,
        libraries.getD [] = before ++ (name, library) :: after → before.AllValid options →
        (validateSyntax options library).isValid = false →
        ∃ code path node,
          validateSyntax options library = .invalid code (Outcome.rootSegment :: path) ∧
          validateWith options libraries input =
            .invalid code (librariesSegment :: name :: Outcome.rootSegment :: path) ∧
          Offends options.maxDepth ⟨.program, false, library⟩ code path node ∧
          (library.Addressable →
            (validateSyntax options library).locate? library = some node)) ∧
      ((libraries.getD []).AllValid options →
        validateWith options libraries input = validateSyntax options input)) ∧
    (∀ libraries', libraries'.Perm (libraries.getD []) →
      (validateWith options (some libraries') input).isValid =
        (validateWith options libraries input).isValid) ∧
    (input.Addressable →
      (((validateWith options libraries input).locate? input).isSome = true ↔
        (validateWith options libraries input).isValid = false ∧
        ∃ path, (validateWith options libraries input).errorPath =
          Outcome.rootSegment :: path)) := by
  refine ⟨validateWith_of_scalar, ?_, ?_, ?_, locate?_isSome_iff⟩
  · intro hinput htrusted
    have hplain : ∀ libraries, validateWith options libraries input =
        validateSyntax options input := fun _ => validateWith_of_trusted hinput htrusted
    exact ⟨hplain libraries, fun libraries' => (hplain libraries').trans (hplain libraries).symm⟩
  · intro hinput hasked
    refine ⟨?_, validateWith_of_allValid hinput⟩
    intro before name library after hlibraries hbefore hinvalid
    obtain ⟨code, path, node, hlibrary, houtcome, hoffends⟩ :=
      validateWith_of_first_invalid hinput hasked hlibraries hbefore hinvalid
    refine ⟨code, path, node, hlibrary, houtcome, hoffends, ?_⟩
    intro haddressable
    rw [hlibrary]
    exact hoffends.follow? haddressable
  · intro libraries' hperm
    rw [Bool.eq_iff_iff, isValid_validateWith_iff, isValid_validateWith_iff]
    constructor
    · rintro ⟨hinput, hvalid, hprogram⟩
      exact ⟨hinput, fun hasked => (hvalid hasked).perm hperm, hprogram⟩
    · rintro ⟨hinput, hvalid, hprogram⟩
      exact ⟨hinput, fun hasked => (hvalid hasked).perm hperm.symm, hprogram⟩

def threeLibraries : Libraries :=
  [("whole", .object [("functions", .array [])]), ("empty", .object []), ("list", .array [])]

theorem threeLibraries_origin :
    (Json.isStructured .null = false ∧
      validateWith ⟨256, true⟩ threeLibraries .null = .invalid .invalidInput []) ∧
    (Json.isStructured (.object []) = true ∧
      validateWith ⟨256, false⟩ threeLibraries (.object []) =
        validateSyntax ⟨256, false⟩ (.object [])) ∧
    (threeLibraries = [threeLibraries[0]] ++ ("empty", .object []) :: [threeLibraries[2]] ∧
      Libraries.AllValid ⟨256, true⟩ [threeLibraries[0]] ∧
      (validateSyntax ⟨256, true⟩ (.object [])).isValid = false ∧
      ∃ code path, validateWith ⟨256, true⟩ threeLibraries (.array []) =
        .invalid code (librariesSegment :: "empty" :: Outcome.rootSegment :: path)) ∧
    (threeLibraries.reverse.Perm threeLibraries ∧
      (validateWith ⟨256, true⟩ (some threeLibraries.reverse) (.array [])).isValid =
        (validateWith ⟨256, true⟩ (some threeLibraries) (.array [])).isValid) ∧
    (Json.Addressable (.array []) ∧
      ¬ ((validateWith ⟨256, true⟩ threeLibraries (.array [])).locate? (.array [])).isSome = true ∧
      ((validateWith ⟨256, true⟩ none (.array [])).locate? (.array [])).isSome = true) := by
  have hwhole : Libraries.AllValid ⟨256, true⟩ [threeLibraries[0]] := by
    intro entry hentry
    obtain rfl := List.mem_singleton.mp hentry
    decide
  have hempty : (validateSyntax ⟨256, true⟩ (.object [])).isValid = false := by decide
  have haddressable : Json.Addressable (.array []) := by
    simp [Json.Addressable, Json.AddressableItems]
  have hlist := validateWith_reports_first_origin ⟨256, true⟩ (some threeLibraries) (.array [])
  have halone := validateWith_reports_first_origin ⟨256, true⟩ none (.array [])
  obtain ⟨code, path, node, -, houtcome, -, -⟩ :=
    (hlist.2.2.1 rfl rfl).1 _ "empty" (.object []) [threeLibraries[2]] rfl hwhole hempty
  refine ⟨⟨rfl, ?_⟩, ⟨rfl, ?_⟩, ⟨rfl, hwhole, hempty, code, path, houtcome⟩, ?_, haddressable,
    ?_, ?_⟩
  · exact (validateWith_reports_first_origin ⟨256, true⟩ (some threeLibraries) .null).1 rfl
  · exact ((validateWith_reports_first_origin ⟨256, false⟩ (some threeLibraries)
      (.object [])).2.1 rfl rfl).1
  · exact ⟨List.reverse_perm _, hlist.2.2.2.1 _ (List.reverse_perm _)⟩
  · rw [hlist.2.2.2.2 haddressable, houtcome]
    rintro ⟨-, other, hpath⟩
    exact absurd (List.cons.inj hpath).1 (by decide)
  · rw [halone.2.2.2.2 haddressable]
    exact ⟨by decide, [], by decide⟩

end TreeSyntax
