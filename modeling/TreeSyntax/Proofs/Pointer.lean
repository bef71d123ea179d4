import TreeSyntax.Load.Basic
import TreeSyntax.Proofs.Libraries

/-!
# Pointers

A pointer selects a part of a document if its segments lead to that part and no index among them
takes a liberty.  The path of a failure takes none, so behind the pointer of the program it points
into the document that the program comes from.
-/

namespace TreeSyntax

namespace Json

/-! ## Texts of pointers -/

def slashEscape (character : Char) : List Char :=
  if character = '~' then ['~', '0'] else if character = '/' then ['~', '1'] else [character]

def escapeSegment (segment : String) : List Char :=
  segment.toList.flatMap slashEscape

def pointerOf (segments : List String) : String :=
  String.ofList (segments.flatMap fun segment => '/' :: escapeSegment segment)

theorem unescapeSlashes_cons {character : Char} (h : character ≠ '~') (rest : List Char) :
    unescapeSlashes (character :: rest) = character :: unescapeSlashes rest := by
  rw [unescapeSlashes]
  rintro more rfl
  contradiction

theorem unescapeTildes_cons {character : Char} (h : character ≠ '~') (rest : List Char) :
    unescapeTildes (character :: rest) = character :: unescapeTildes rest := by
  rw [unescapeTildes]
  rintro more rfl
  contradiction

private theorem unescape_flatMap_slashEscape (characters : List Char) :
    unescapeTildes (unescapeSlashes (characters.flatMap slashEscape)) = characters := by
  induction characters with
  | nil => rfl
  | cons character characters ih =>
      rw [List.flatMap_cons, slashEscape]
      by_cases htilde : character = '~'
      · rw [if_pos htilde, htilde]
        simp [unescapeSlashes, unescapeTildes, ih]
      · by_cases hslash : character = '/'
        · rw [if_neg htilde, if_pos hslash, hslash]
          simp [unescapeSlashes, unescapeTildes, ih]
        · rw [if_neg htilde, if_neg hslash, List.singleton_append, unescapeSlashes_cons htilde,
            unescapeTildes_cons htilde, ih]

theorem unescapeSegment_escapeSegment (segment : String) :
    unescapeSegment (escapeSegment segment) = segment := by
  rw [unescapeSegment, escapeSegment, unescape_flatMap_slashEscape, String.ofList_toList]

theorem slash_notMem_escapeSegment (segment : String) : '/' ∉ escapeSegment segment := by
  intro h
  obtain ⟨character, -, hmem⟩ := List.mem_flatMap.mp h
  rw [slashEscape] at hmem
  split at hmem
  · simp at hmem
  · split at hmem
    · simp at hmem
    next hslash => exact hslash (List.mem_singleton.mp hmem).symm

theorem toList_pointerOf_cons (segment : String) (segments : List String) :
    (pointerOf (segment :: segments)).toList =
      '/' :: (escapeSegment segment ++ (pointerOf segments).toList) := by
  simp [pointerOf]

private theorem piecesOf_append_pointer (text : List Char) (segments : List String) :
    Text.piecesOf '/' (text ++ (pointerOf segments).toList) =
      Text.piecesOf '/' text ++ segments.map escapeSegment := by
  induction segments generalizing text with
  | nil => simp [pointerOf]
  | cons segment segments ih =>
      rw [toList_pointerOf_cons, Text.piecesOf_append, ih,
        Text.piecesOf_of_notMem (slash_notMem_escapeSegment segment), List.map_cons,
        List.singleton_append]

private theorem map_unescapeSegment_piecesOf (text : List Char) (segments : List String) :
    (Text.piecesOf '/' (text ++ (pointerOf segments).toList)).map unescapeSegment =
      (Text.piecesOf '/' text).map unescapeSegment ++ segments := by
  have hsegments : (segments.map escapeSegment).map unescapeSegment = segments := by
    simp [List.map_map, Function.comp_def, unescapeSegment_escapeSegment]
  rw [piecesOf_append_pointer, List.map_append, hsegments]

/-- A pointer that goes on with a path has its own segments and after them those of the path. -/
theorem pointerSegments?_append (pointer : String) (segments : List String) :
    pointerSegments? (pointer ++ pointerOf segments) =
      (pointerSegments? pointer).map (· ++ segments) := by
  rw [pointerSegments?, pointerSegments?, String.toList_append]
  cases pointer.toList with
  | nil =>
      cases segments with
      | nil => rfl
      | cons segment segments =>
          rw [toList_pointerOf_cons]
          simp only [List.nil_append, map_unescapeSegment_piecesOf,
            Text.piecesOf_of_notMem (slash_notMem_escapeSegment segment), List.map_singleton,
            unescapeSegment_escapeSegment, List.singleton_append, Option.map_some]
  | cons first rest =>
      by_cases hslash : first = '/'
      · subst hslash
        simp only [List.cons_append, map_unescapeSegment_piecesOf, Option.map_some]
      · simp [hslash]

theorem pointerSegments?_pointerOf (segments : List String) :
    pointerSegments? (pointerOf segments) = some segments := by
  have happend := pointerSegments?_append "" segments
  rwa [String.empty_append] at happend

/-! ## Liberties of indices -/

/-- A plus sign in front, or a zero in front of something else. -/
def TakesLiberty (segment : String) : Prop :=
  (∃ rest, segment.toList = '+' :: rest) ∨ ∃ next rest, segment.toList = '0' :: next :: rest

theorem canonicalUnsigned?_eq_some_iff {segment : String} {index : Nat} :
    Text.canonicalUnsigned? segment = some index ↔
      Text.unsigned? segment = some index ∧ ¬ TakesLiberty segment := by
  rw [Text.canonicalUnsigned?, Text.unsigned?, TakesLiberty]
  split
  next next rest hzero => simp [hzero]
  next hzero =>
    split
    next rest hplus => simp [hplus, Text.digits?, Text.digitsFrom?, Text.digitValue?]
    next hplus =>
      have hneither : ¬ ((∃ rest, segment.toList = '+' :: rest) ∨
          ∃ next rest, segment.toList = '0' :: next :: rest) := by
        rintro (⟨rest, h⟩ | ⟨next, rest, h⟩)
        · exact hplus rest h
        · exact hzero next rest h
      rw [and_iff_left hneither]

private theorem not_takesLiberty_indexText (index : Nat) : ¬ TakesLiberty (indexText index) := by
  have hdigits : ∀ digit ∈ Nat.toDigits 10 index, digit.isDigit = true :=
    fun _ => Nat.isDigit_of_mem_toDigits (by decide) (by decide)
  rw [TakesLiberty, indexText, String.toList_ofList]
  rintro (⟨rest, hplus⟩ | ⟨next, rest, hzero⟩)
  · exact absurd (hdigits '+' (hplus ▸ List.mem_cons_self)) (by decide)
  · have hvalue : Nat.ofDigitChars 10 (next :: rest) 0 = index := by
      rw [← @Nat.ofDigitChars_ten_toDigits index, hzero]
      rfl
    -- The digits behind the zero have the same value, so they are no fewer.
    rw [hzero] at hdigits
    obtain ⟨zeros, hrest⟩ := Text.exists_zeros_append (List.cons_ne_nil next rest)
      (List.forall_mem_cons.mp hdigits).2
    rw [hvalue, hzero] at hrest
    have hlength := congrArg List.length hrest
    simp only [List.length_append, List.length_cons] at hlength
    omega

/-! ## Following a pointer -/

def PlainIndices (root : Json) (segments : List String) : Prop :=
  ∀ before segment after items, segments = before ++ segment :: after →
    root.follow? before = some (.array items) → ¬ TakesLiberty segment

theorem plainIndices_cons_iff {value : Json} {segment : String} {segments : List String} :
    value.PlainIndices (segment :: segments) ↔
      (∀ items, value = .array items → ¬ TakesLiberty segment) ∧
      ∀ child, value.child? segment = some child → child.PlainIndices segments := by
  constructor
  · intro h
    refine ⟨fun items hitems => h [] segment segments items rfl (by rw [follow?, hitems]), ?_⟩
    intro child hchild before next after items hsegments hitems
    apply h (segment :: before) next after items (by rw [hsegments, List.cons_append])
    rw [follow?, hchild, Option.bind_some, hitems]
  · rintro ⟨hfirst, hrest⟩ before next after items hsegments hitems
    cases before with
    | nil =>
        obtain ⟨rfl, rfl⟩ := List.cons.inj hsegments
        exact hfirst items (Option.some.inj hitems)
    | cons _ before =>
        obtain ⟨rfl, rfl⟩ := List.cons.inj hsegments
        obtain ⟨child, hchild, hitems⟩ := Option.bind_eq_some_iff.mp hitems
        exact hrest child hchild before next after items rfl hitems

theorem pointerChild?_eq_some_iff {value child : Json} {segment : String} :
    value.pointerChild? segment = some child ↔
      value.child? segment = some child ∧
      ∀ items, value = .array items → ¬ TakesLiberty segment := by
  cases value with
  | array items =>
      simp only [pointerChild?, child?, Option.bind_eq_some_iff, canonicalUnsigned?_eq_some_iff,
        array.injEq, forall_eq']
      constructor
      · rintro ⟨index, ⟨hindex, hplain⟩, hitem⟩
        exact ⟨⟨index, hindex, hitem⟩, hplain⟩
      · rintro ⟨⟨index, hindex, hitem⟩, hplain⟩
        exact ⟨index, ⟨hindex, hplain⟩, hitem⟩
  | _ => simp [pointerChild?, child?]

theorem followPointerSegments?_eq_some_iff {value node : Json} {segments : List String} :
    value.followPointerSegments? segments = some node ↔
      value.follow? segments = some node ∧ value.PlainIndices segments := by
  induction segments generalizing value with
  | nil =>
      have hplain : value.PlainIndices [] := by
        intro before segment after items hsegments
        simp at hsegments
      rw [and_iff_left hplain]
      rfl
  | cons segment segments ih =>
      rw [plainIndices_cons_iff, followPointerSegments?, follow?]
      simp only [Option.bind_eq_some_iff, pointerChild?_eq_some_iff, ih]
      constructor
      · rintro ⟨child, ⟨hchild, hfirst⟩, hfollow, hplain⟩
        refine ⟨⟨child, hchild, hfollow⟩, hfirst, ?_⟩
        rintro other hother
        rwa [← Option.some.inj (hchild.symm.trans hother)]
      · rintro ⟨⟨child, hchild, hfollow⟩, hfirst, hplain⟩
        exact ⟨child, ⟨hchild, hfirst⟩, hfollow, hplain child hchild⟩

theorem Leads.followPointerSegments? {first last : Json} {trail : List Branch}
    (h : Leads first trail last) (haddressable : first.Addressable) :
    first.followPointerSegments? (trail.map Branch.text) = some last := by
  induction h with
  | here value => rfl
  | @key members name child node trail hchild hrest ih =>
      rw [List.map_cons, Json.followPointerSegments?]
      exact Option.bind_eq_some_iff.mpr ⟨child, hchild, ih (haddressable.find? hchild)⟩
  | @element items index child node trail hchild hrest ih =>
      have hfound : (array items).child? (indexText index) = some child := by
        simpa [Json.follow?] using follow?_indexText haddressable.1 hchild
      rw [List.map_cons, Json.followPointerSegments?]
      exact Option.bind_eq_some_iff.mpr ⟨child,
        pointerChild?_eq_some_iff.mpr ⟨hfound, fun _ _ => not_takesLiberty_indexText index⟩,
        ih (haddressable.getElem? hchild)⟩

theorem followPointerSegments?_append (value : Json) (first second : List String) :
    value.followPointerSegments? (first ++ second) =
      (value.followPointerSegments? first).bind fun inner =>
        inner.followPointerSegments? second := by
  induction first generalizing value with
  | nil => rfl
  | cons segment first ih => simp [followPointerSegments?, ih, Option.bind_assoc]

theorem pointer?_append {value program : Json} {pointer : String}
    (h : value.pointer? pointer = some program) (segments : List String) :
    value.pointer? (pointer ++ pointerOf segments) = program.followPointerSegments? segments := by
  obtain ⟨front, hfront, hprogram⟩ := Option.bind_eq_some_iff.mp h
  rw [pointer?, pointerSegments?_append, hfront, Option.map_some, Option.bind_some,
    followPointerSegments?_append, hprogram, Option.bind_some]

theorem pointer?_pointerOf (value : Json) (segments : List String) :
    value.pointer? (pointerOf segments) = value.followPointerSegments? segments := by
  rw [pointer?, pointerSegments?_pointerOf, Option.bind_some]

theorem Addressable.pointer? {value part : Json} {pointer : String}
    (haddressable : value.Addressable) (h : value.pointer? pointer = some part) :
    part.Addressable := by
  obtain ⟨segments, -, hfollow⟩ := Option.bind_eq_some_iff.mp h
  obtain ⟨trail, -, hleads⟩ :=
    Leads.exists_of_follow? (followPointerSegments?_eq_some_iff.mp hfollow).1
  exact hleads.addressable haddressable

end Json

/-! ## Locating -/

namespace Outcome

theorem locate?_eq_follow? {outcome : Outcome} {segments : List String}
    (h : outcome.errorPath = rootSegment :: segments) (root : Json) :
    outcome.locate? root = root.follow? segments := by
  simp [locate?, h]

private theorem exists_of_locate? {outcome : Outcome} {root node : Json}
    (h : outcome.locate? root = some node) :
    ∃ segments, outcome.errorPath = rootSegment :: segments ∧
      root.follow? segments = some node := by
  rw [locate?] at h
  split at h
  · cases h
  next first segments hpath =>
    obtain ⟨rfl, hfollow⟩ := Option.ite_none_right_eq_some.mp h
    exact ⟨segments, hpath, hfollow⟩

end Outcome

/-! ## Programs at pointers -/

theorem loadProgram_eq_ok_iff {files : FileTree} {path pointer : String} {root program : Json}
    (hload : loadJson files path = .ok root) :
    loadProgram files path (some pointer) = .ok program ↔
      root.pointer? pointer = some program := by
  rw [loadProgram, hload]
  cases hpart : root.pointer? pointer <;> simp [hpart]

/-- The path of a failure below the root segment is a trail into the program, with or without
libraries. -/
private theorem exists_trail_of_errorPath {options : Options} {libraries : Option Libraries}
    {program : Json} {outcome : Outcome} {rest : List String}
    (houtcome : outcome = validateWith options libraries program ∨
      outcome = validateSyntax options program)
    (hinvalid : outcome.isValid = false) (hpath : outcome.errorPath = Outcome.rootSegment :: rest) :
    ∃ trail node, rest = trail.map Json.Branch.text ∧ Json.Leads program trail node := by
  -- The other outcomes of a validation have no path or one that starts at the libraries.
  have hchecked : outcome = validateSyntax options program := by
    rcases houtcome with rfl | hchecked
    · rcases validateWith_cases options libraries program with
        hscalar | hchecked | ⟨-, name, library, -, hlibrary, hnested⟩
      · rw [hscalar] at hpath
        cases hpath
      · exact hchecked
      · rw [hnested, Outcome.nested, hlibrary] at hpath
        exact absurd (List.cons.inj hpath).1 (by decide)
    · exact hchecked
  obtain ⟨code, path, node, hoffence, hoffends⟩ :=
    exists_offence_of_invalid (hchecked ▸ hinvalid)
  rw [hchecked, hoffence] at hpath
  obtain ⟨trail, rfl, hleads⟩ := hoffends.leads
  exact ⟨trail, node, (List.cons.inj hpath).2.symm, hleads⟩

/-- Paths and pointers select the same parts, up to the liberties that a path may take with its
indices, and the path of a failure continues the pointer of the program. -/
theorem paths_and_pointers_agree (root : Json) (haddressable : root.Addressable) :
    (∀ trail node, Json.Leads root trail node → ∀ outcome : Outcome,
      outcome.errorPath = Outcome.rootSegment :: trail.map Json.Branch.text →
      outcome.locate? root = some node) ∧
    (∀ (outcome : Outcome) node, outcome.locate? root = some node ↔
      ∃ segments trail, outcome.errorPath = Outcome.rootSegment :: segments ∧
        List.Forall₂ Json.Branch.Spelled trail segments ∧ Json.Leads root trail node) ∧
    ∀ files path, loadJson files path = .ok root →
      (∀ segments node (outcome : Outcome),
        outcome.errorPath = Outcome.rootSegment :: segments →
        (loadProgram files path (some (Json.pointerOf segments)) = .ok node ↔
          outcome.locate? root = some node ∧ root.PlainIndices segments)) ∧
      ∀ pointer program options libraries rest (outcome : Outcome),
        loadProgram files path (some pointer) = .ok program →
        (outcome = validateWith options libraries program ∨
          outcome = validateSyntax options program) →
        outcome.isValid = false → outcome.errorPath = Outcome.rootSegment :: rest →
        ∃ node, outcome.locate? program = some node ∧
          loadProgram files path (some (pointer ++ Json.pointerOf rest)) = .ok node := by
  refine ⟨?_, ?_, ?_⟩
  · intro trail node hleads outcome hpath
    rw [outcome.locate?_eq_follow? hpath, hleads.follow? haddressable]
  · intro outcome node
    constructor
    · intro hlocate
      obtain ⟨segments, hpath, hfollow⟩ := Outcome.exists_of_locate? hlocate
      obtain ⟨trail, hspelled, hleads⟩ := Json.Leads.exists_of_follow? hfollow
      exact ⟨segments, trail, hpath, hspelled, hleads⟩
    · rintro ⟨segments, trail, hpath, hspelled, hleads⟩
      rw [outcome.locate?_eq_follow? hpath, hleads.follow?_spelled haddressable hspelled]
  · intro files path hload
    refine ⟨?_, ?_⟩
    · intro segments node outcome hpath
      rw [loadProgram_eq_ok_iff hload, outcome.locate?_eq_follow? hpath,
        Json.pointer?_pointerOf, Json.followPointerSegments?_eq_some_iff]
    · intro pointer program options libraries rest outcome hprogram houtcome hinvalid hpath
      rw [loadProgram_eq_ok_iff hload] at hprogram
      obtain ⟨trail, node, rfl, hleads⟩ := exists_trail_of_errorPath houtcome hinvalid hpath
      have hinside := haddressable.pointer? hprogram
      refine ⟨node, ?_, ?_⟩
      · rw [outcome.locate?_eq_follow? hpath, hleads.follow? hinside]
      · rw [loadProgram_eq_ok_iff hload, Json.pointer?_append hprogram,
          hleads.followPointerSegments? hinside]

def unkeyedFunction : Json :=
  .object [("functions", .array [.object []])]

def unkeyedDocument : Json :=
  .object [("a/b", .array [unkeyedFunction])]

def unkeyedFile : FileTree :=
  ⟨[(["d.json"], .file "\x7b\"a/b\":[\x7b\"functions\":[\x7b\x7d]\x7d]\x7d".toUTF8)]⟩

theorem unkeyedDocument_pointers :
    unkeyedDocument.Addressable ∧ loadJson unkeyedFile "d.json" = .ok unkeyedDocument ∧
    loadProgram unkeyedFile "d.json" (some "/a~1b/0") = .ok unkeyedFunction ∧
    validateWith .default none unkeyedFunction =
      .invalid .missingKey ["program", "functions", "0"] ∧
    (∃ node, (validateWith .default none unkeyedFunction).locate? unkeyedFunction = some node ∧
      loadProgram unkeyedFile "d.json" (some "/a~1b/0/functions/0") = .ok node) ∧
    (Outcome.invalid .missingKey ["program", "a/b", "+00"]).locate? unkeyedDocument =
      some unkeyedFunction ∧
    loadProgram unkeyedFile "d.json" (some "/a~1b/+00") ≠ .ok unkeyedFunction := by
  have haddressable : unkeyedDocument.Addressable := by
    simp [unkeyedDocument, unkeyedFunction, Json.Addressable, Json.AddressableItems,
      Json.AddressableMembers, Text.unsignedBound, UInt64.size]
  have hload : loadJson unkeyedFile "d.json" = .ok unkeyedDocument := by
    have hread : unkeyedFile.read "d.json" =
        .ok "\x7b\"a/b\":[\x7b\"functions\":[\x7b\x7d]\x7d]\x7d" := rfl
    have hparse : Json.parse "\x7b\"a/b\":[\x7b\"functions\":[\x7b\x7d]\x7d]\x7d" =
        .ok unkeyedDocument := by decide +kernel
    simp only [loadJson, readFile, hread, hparse]
  have hprogram : loadProgram unkeyedFile "d.json" (some "/a~1b/0") = .ok unkeyedFunction :=
    (loadProgram_eq_ok_iff hload).mpr (by rfl)
  have houtcome : validateWith .default none unkeyedFunction =
      .invalid .missingKey ["program", "functions", "0"] := by decide
  obtain ⟨-, hlocate, hpointer⟩ := paths_and_pointers_agree unkeyedDocument haddressable
  obtain ⟨hselect, hcontinue⟩ := hpointer unkeyedFile "d.json" hload
  refine ⟨haddressable, hload, hprogram, houtcome, ?_, ?_, ?_⟩
  · exact hcontinue "/a~1b/0" unkeyedFunction .default none ["functions", "0"] _ hprogram
      (.inl rfl) (by rw [houtcome]; rfl) (by rw [houtcome]; rfl)
  · have hspelled : (Json.Branch.element 0).Spelled "+00" := .element 0 (.inr rfl) 1
    exact (hlocate _ _).mpr ⟨["a/b", "+00"], [.key "a/b", .element 0], rfl,
      .cons (.key "a/b") (.cons hspelled .nil), .key rfl (.element rfl (.here _))⟩
  · intro hselected
    have hplain := ((hselect ["a/b", "+00"] unkeyedFunction
      (.invalid .missingKey ["program", "a/b", "+00"]) rfl).mp hselected).2
    exact hplain ["a/b"] "+00" [] [unkeyedFunction] rfl rfl (.inl ⟨['0', '0'], rfl⟩)

end TreeSyntax
