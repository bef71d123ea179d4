import TreeSyntax.CommandLine.Fixtures
import TreeSyntax.Proofs.Fixture
import TreeSyntax.Proofs.PathOrder
import TreeSyntax.Proofs.Stages

/-!
# Runs of fixtures

A run of fixtures comes to one verdict on all paths that its patterns match.  It has a report for
every match in path order, counts those that were not validated as expected, and does not depend on
the order of the patterns.  A file that does not load ends the run where it stands.
-/

namespace TreeSyntax

/-! ## Outcomes on one line -/

namespace Json

private theorem newline_notMem_escapeControl {character : Char} (h : character.toNat < 0x20) :
    '\n' ∉ escapeControl character := by
  have hdigit : ∀ number < 16, '\n' ≠ Nat.digitChar number := by decide
  have hstart : '\n' ∉ ['\\', 'u', '0', '0'] := by decide
  exact List.not_mem_append hstart
    (List.not_mem_cons_of_ne_of_not_mem (hdigit _ (by omega))
      (List.not_mem_cons_of_ne_of_not_mem (hdigit _ (by omega)) List.not_mem_nil))

private theorem newline_notMem_escapeCharacter (character : Char) :
    '\n' ∉ escapeCharacter character := by
  rcases escapeCharacter_cases character with
    ⟨letter, -, hletter, hescape⟩ | ⟨hcontrol, hescape⟩ | ⟨hplain, -, -, hescape⟩
  · rw [hescape]
    rintro (_ | ⟨_, _ | ⟨_, ⟨⟩⟩⟩)
    cases hletter
  · rw [hescape]
    exact newline_notMem_escapeControl hcontrol
  · rw [hescape, List.mem_singleton]
    rintro rfl
    exact hplain (by decide)

private theorem newline_notMem_stringText (text : String) : '\n' ∉ (stringText text).toList := by
  have hquote : '\n' ≠ '"' := by decide
  simp [toList_stringText, newline_notMem_escapeCharacter, hquote]

private theorem newline_notMem_enclosed {opening closing : String} {parts : List String}
    (hopening : '\n' ∉ opening.toList) (hclosing : '\n' ∉ closing.toList)
    (h : ∀ part ∈ parts, '\n' ∉ part.toList) :
    '\n' ∉ (opening ++ String.intercalate "," parts ++ closing).toList := by
  have hjoined : '\n' ∉ (Text.joined "," parts).toList := Text.notMem_joined (by decide) h
  rw [← Text.joined_eq_intercalate]
  simp [hopening, hjoined, hclosing]

private theorem compactItems_strings (texts : List String) :
    compactItems (texts.map .string) = texts.map stringText := by
  induction texts with
  | nil => rfl
  | cons text texts ih => rw [List.map_cons, compactItems, ih, compact, List.map_cons]

end Json

theorem Outcome.newline_notMem_compact (outcome : Outcome) :
    '\n' ∉ outcome.toJson.compact.toList := by
  have hvalid : '\n' ∉ (Json.boolText outcome.isValid).toList := by
    cases outcome.isValid <;> decide
  have hpath : '\n' ∉ (Json.bracketed (outcome.errorPath.map Json.stringText)).toList :=
    Json.newline_notMem_enclosed (by decide) (by decide) (by simp [Json.newline_notMem_stringText])
  rw [Outcome.toJson, Json.compact]
  refine Json.newline_notMem_enclosed (by decide) (by decide) ?_
  simp [Outcome.toMembers, Json.compactMembers, Json.compact, Json.compactItems_strings,
    Json.newline_notMem_stringText, hvalid, hpath]

namespace CommandLine

/-! ## Matched paths -/

def Matched (files : FileTree) (patterns : List String) (expansions : List (List String)) : Prop :=
  List.Forall₂ (fun pattern paths => Glob.expand files pattern = .ok paths) patterns expansions

/-- The paths are those that were matched, as often as they were, in path order. -/
structure InPathOrder (paths matched : List String) : Prop where
  perm : paths.Perm matched
  ordered : paths.Pairwise fun first second => PathText.atMost first second = true

theorem InPathOrder.of_perm {paths matched rematched : List String}
    (h : InPathOrder paths matched) (hperm : matched.Perm rematched) :
    InPathOrder paths rematched :=
  ⟨h.perm.trans hperm, h.ordered⟩

theorem inPathOrder_mergeSort (matched : List String) :
    InPathOrder (matched.mergeSort PathText.atMost) matched :=
  ⟨List.mergeSort_perm matched PathText.atMost, PathText.pairwise_atMost_mergeSort matched⟩

section

variable {files : FileTree} {patterns others : List String} {expansions : List (List String)}

theorem Matched.matchesOf_eq (h : Matched files patterns expansions) :
    matchesOf files patterns = .ok expansions.flatten := by
  induction h with
  | nil => rfl
  | cons hpattern hpatterns ih =>
      rw [matchesOf, hpattern]
      simp only [ih, List.flatten_cons]
      rfl

theorem Matched.runFixtures_eq (h : Matched files patterns expansions) (coloured : Bool) :
    runFixtures files coloured patterns =
      runPaths files coloured (expansions.flatten.mergeSort PathText.atMost) := by
  rw [runFixtures, fixturePaths, h.matchesOf_eq]
  rfl

theorem Matched.of_perm (h : Matched files patterns expansions) (hperm : others.Perm patterns) :
    ∃ reordered, Matched files others reordered ∧ reordered.Perm expansions :=
  List.perm_comp_forall₂ hperm h

end

/-! ## Loaded fixtures -/

def Loads (files : FileTree) (path : String) : Prop :=
  ∃ fixture, loadFixture files path = .ok fixture

def loaded? (files : FileTree) (path : String) : Option (String × Fixture) :=
  match loadFixture files path with
  | .ok fixture => some (path, fixture)
  | .error _ => none

def entriesOf (files : FileTree) (paths : List String) : List (String × Fixture) :=
  paths.filterMap (loaded? files)

section

variable {files : FileTree} {path : String} {paths before : List String}

private theorem loaded?_of_ok {fixture : Fixture} (h : loadFixture files path = .ok fixture) :
    loaded? files path = some (path, fixture) := by
  rw [loaded?, h]

@[simp] theorem loaded?_eq_some_iff {entry : String × Fixture} :
    loaded? files path = some entry ↔ entry.1 = path ∧ loadFixture files path = .ok entry.2 := by
  obtain ⟨name, fixture⟩ := entry
  rw [loaded?]
  cases loadFixture files path <;> simp [eq_comm]

theorem entriesOf_cons {fixture : Fixture} (h : loadFixture files path = .ok fixture) :
    entriesOf files (path :: paths) = (path, fixture) :: entriesOf files paths :=
  List.filterMap_cons_some (loaded?_of_ok h)

@[simp] theorem mem_entriesOf_iff {entry : String × Fixture} :
    entry ∈ entriesOf files paths ↔
      entry.1 ∈ paths ∧ loadFixture files entry.1 = .ok entry.2 := by
  simp only [entriesOf, List.mem_filterMap, loaded?_eq_some_iff]
  constructor
  · rintro ⟨path, hpath, rfl, hload⟩
    exact ⟨hpath, hload⟩
  · rintro ⟨hpath, hload⟩
    exact ⟨entry.1, hpath, rfl, hload⟩

theorem map_fst_entriesOf (h : ∀ path ∈ paths, Loads files path) :
    (entriesOf files paths).map Prod.fst = paths := by
  induction paths with
  | nil => rfl
  | cons path paths ih =>
      obtain ⟨⟨fixture, hfixture⟩, hpaths⟩ := List.forall_mem_cons.1 h
      rw [entriesOf_cons hfixture, List.map_cons, ih hpaths]

theorem loadFixtures_append (h : ∀ path ∈ before, Loads files path) (after : List String) :
    loadFixtures files (before ++ after) =
      (entriesOf files before ++ (loadFixtures files after).1, (loadFixtures files after).2) := by
  induction before with
  | nil => rfl
  | cons path before ih =>
      obtain ⟨⟨fixture, hfixture⟩, hbefore⟩ := List.forall_mem_cons.1 h
      rw [List.cons_append, loadFixtures, hfixture, entriesOf_cons hfixture]
      simp only [ih hbefore, List.cons_append]

theorem loadFixtures_of_loads (h : ∀ path ∈ paths, Loads files path) :
    loadFixtures files paths = (entriesOf files paths, none) := by
  have happend := loadFixtures_append h []
  rwa [List.append_nil, loadFixtures, List.append_nil] at happend

theorem loadFixtures_of_error {error : LoadError} (h : ∀ path ∈ before, Loads files path)
    (herror : loadFixture files path = .error error) (after : List String) :
    loadFixtures files (before ++ path :: after) = (entriesOf files before, some error) := by
  simp only [loadFixtures_append h, loadFixtures, herror, List.append_nil]

theorem exists_failsFirst (h : ∃ path ∈ paths, ¬ Loads files path) :
    ∃ error, FailsFirst (loadFixture files) paths error := by
  induction paths with
  | nil => simp at h
  | cons path paths ih =>
      cases hload : loadFixture files path with
      | error error => exact ⟨error, FailsFirst.cons_iff.2 (.inl hload)⟩
      | ok fixture =>
          have hloads : Loads files path := ⟨fixture, hload⟩
          obtain ⟨error, herror⟩ := ih (by simpa [hloads] using h)
          exact ⟨error, FailsFirst.cons_iff.2 (.inr ⟨hloads, herror⟩)⟩

end

/-! ## The verdict -/

def reports (coloured : Bool) (entries : List (String × Fixture)) : List String :=
  entries.map fun entry => fixtureLines coloured entry.1 entry.2

def mismatches (entries : List (String × Fixture)) : Nat :=
  entries.countP fun entry => validate entry.2.libraries entry.2.input ≠ entry.2.expect

theorem failedCount_eq_mismatches (entries : List (String × Fixture)) :
    failedCount entries = mismatches entries := by
  rw [failedCount, mismatches, List.countP_eq_length_filter]
  congr 2
  funext entry
  rw [Fixture.passes, Fixture.actual, decide_not]

theorem mismatches_eq_of_perm {entries reordered : List (String × Fixture)}
    (h : reordered.Perm entries) : mismatches reordered = mismatches entries :=
  h.countP_eq _

theorem mismatches_eq_zero_iff {entries : List (String × Fixture)} :
    mismatches entries = 0 ↔
      ∀ entry ∈ entries, validate entry.2.libraries entry.2.input = entry.2.expect := by
  simp [mismatches, List.countP_eq_zero]

/-! ## The end of a run -/

def summaryText (total failed : Nat) : String :=
  s!"—— {total} fixtures, {failed} failed ——"

theorem summaryText_eq (total failed : Nat) :
    summaryText total failed =
      "—— " ++ toString total ++ " fixtures, " ++ toString failed ++ " failed ——" := rfl

theorem fixtureSummary_eq (entries : List (String × Fixture)) :
    fixtureSummary entries = summaryText entries.length (mismatches entries) ++ "\n" := by
  rw [fixtureSummary, summaryText, failedCount_eq_mismatches]
  simp only [toString, String.append_assoc]
  rfl

section

variable {files : FileTree} {path : String} {paths before : List String}

private theorem length_entriesOf (h : ∀ path ∈ paths, Loads files path) :
    (entriesOf files paths).length = paths.length := by
  rw [← List.length_map Prod.fst, map_fst_entriesOf h]

theorem runPaths_of_loads (coloured : Bool) (h : ∀ path ∈ paths, Loads files path) :
    runPaths files coloured paths =
      ⟨if mismatches (entriesOf files paths) = 0 then 0 else 1, "",
        String.join (reports coloured (entriesOf files paths)) ++
          (summaryText paths.length (mismatches (entriesOf files paths)) ++ "\n"), files⟩ := by
  simp only [runPaths, loadFixtures_of_loads h, fixtureSummary_eq, failedCount_eq_mismatches,
    length_entriesOf h]
  rfl

theorem runPaths_of_error {error : LoadError} (coloured : Bool)
    (h : ∀ path ∈ before, Loads files path) (herror : loadFixture files path = .error error)
    (after : List String) :
    runPaths files coloured (before ++ path :: after) =
      ⟨1, "", String.join (reports coloured (entriesOf files before)) ++
        ("error: " ++ Text.joined ": " error.chain ++ "\n"), files⟩ := by
  simp only [runPaths, loadFixtures_of_error h herror]
  rfl

end

/-! ## Lines -/

def reportLines (coloured : Bool) (entry : String × Fixture) : List String :=
  if entry.2.passes then [Text.styled coloured .green "✅" ++ " " ++ entry.1]
  else
    [Text.styled coloured .red "❌" ++ " " ++ entry.1 ++ " — " ++ entry.2.description,
      "    expected: " ++ entry.2.expect.toJson.compact,
      "    actual:   " ++ entry.2.actual.toJson.compact]

theorem fixtureLines_eq (coloured : Bool) (entry : String × Fixture) :
    fixtureLines coloured entry.1 entry.2 =
      String.join ((reportLines coloured entry).map (· ++ "\n")) := by
  rw [fixtureLines, reportLines]
  apply String.toList_injective
  split <;> simp

private theorem join_reports (coloured : Bool) (entries : List (String × Fixture)) :
    String.join (reports coloured entries) =
      String.join ((entries.flatMap (reportLines coloured)).map (· ++ "\n")) := by
  apply String.toList_injective
  simp only [reports, fixtureLines_eq, String.toList_join, List.flatMap_map, List.map_flatMap,
    List.flatMap_assoc]

/-- Neither the path nor the description of a fixture breaks the line. -/
structure OneLine (entry : String × Fixture) : Prop where
  path : '\n' ∉ entry.1.toList
  description : '\n' ∉ entry.2.description.toList

theorem OneLine.reportLines {entry : String × Fixture} (h : OneLine entry) (coloured : Bool) :
    ∀ line ∈ reportLines coloured entry, '\n' ∉ line.toList := by
  have hpassed : '\n' ∉ (Text.styled coloured .green "✅").toList :=
    Text.newline_notMem_styled coloured .green (by decide)
  have hfailed : '\n' ∉ (Text.styled coloured .red "❌").toList :=
    Text.newline_notMem_styled coloured .red (by decide)
  rw [CommandLine.reportLines]
  split
  · simp [hpassed, h.path]
  · simp [hfailed, h.path, h.description, Outcome.newline_notMem_compact]

/-- The lines of the reports, and a last one. -/
theorem pieces_reports {entries : List (String × Fixture)} {last : String} (coloured : Bool)
    (h : ∀ entry ∈ entries, OneLine entry) (hlast : '\n' ∉ last.toList) :
    Text.pieces '\n' (String.join (reports coloured entries) ++ (last ++ "\n")) =
      entries.flatMap (reportLines coloured) ++ [last, ""] := by
  have hlines : ∀ line ∈ entries.flatMap (reportLines coloured) ++ [last], '\n' ∉ line.toList := by
    simp only [List.mem_append, List.mem_flatMap, List.mem_singleton]
    rintro line (⟨entry, hentry, hline⟩ | rfl)
    · exact (h entry hentry).reportLines coloured line hline
    · exact hlast
  have hpieces := Text.pieces_lines hlines (show '\n' ∉ "".toList by decide)
  rw [String.append_empty, List.map_append, String.join_append, ← join_reports, List.map_singleton,
    List.append_assoc] at hpieces
  exact hpieces

theorem newline_notMem_summaryText (total failed : Nat) :
    '\n' ∉ (summaryText total failed).toList := by
  simp [summaryText_eq, newline_notMem_toDigits]

private theorem head?_summaryText (total failed : Nat) :
    (summaryText total failed).toList.head? = some '—' := by
  simp [summaryText_eq]

private theorem head?_reportLines {coloured : Bool} {entry : String × Fixture} {line : String}
    (h : line ∈ reportLines coloured entry) : line.toList.head? ≠ some '—' := by
  rw [reportLines] at h
  cases coloured <;> split at h <;>
    simp only [List.mem_cons, List.not_mem_nil, or_false] at h
  · subst h
    simp [Text.styled]
  · rcases h with rfl | rfl | rfl <;> simp [Text.styled]
  · subst h
    simp [Text.styled, Text.rendition]
  · rcases h with rfl | rfl | rfl <;> simp [Text.styled, Text.rendition]

private theorem summaryText_notMem_lines (coloured : Bool) (entries : List (String × Fixture))
    (message : String) (total failed : Nat) :
    summaryText total failed ∉
      entries.flatMap (reportLines coloured) ++ ["error: " ++ message, ""] := by
  have hhead := head?_summaryText total failed
  simp only [List.mem_append, List.mem_flatMap, List.mem_cons, List.not_mem_nil, or_false]
  rintro (⟨entry, -, hline⟩ | hline | hline)
  · exact head?_reportLines hline hhead
  · simp [hline] at hhead
  · simp [hline] at hhead

/-! ## One verdict -/

section

variable {files : FileTree} {patterns : List String} {expansions : List (List String)}

private theorem inPathOrder_entriesOf {paths matched : List String} (h : InPathOrder paths matched)
    (hloads : ∀ path ∈ matched, Loads files path) :
    InPathOrder ((entriesOf files paths).map Prod.fst) matched := by
  rwa [map_fst_entriesOf fun path hpath => hloads path (h.perm.mem_iff.1 hpath)]

/-- What a run comes to whose matches all load, in any order of the patterns. -/
theorem Matched.run_of_loads (h : Matched files patterns expansions) (coloured : Bool)
    (hloads : ∀ path ∈ expansions.flatten, Loads files path) :
    let entries := entriesOf files (expansions.flatten.mergeSort PathText.atMost)
    runFixtures files coloured patterns =
      ⟨if mismatches entries = 0 then 0 else 1, "",
        String.join (reports coloured entries) ++
          (summaryText expansions.flatten.length (mismatches entries) ++ "\n"), files⟩ := by
  have hsorted := inPathOrder_mergeSort expansions.flatten
  rw [h.runFixtures_eq, runPaths_of_loads coloured fun path hpath =>
    hloads path (hsorted.perm.mem_iff.1 hpath), hsorted.perm.length_eq]

theorem Matched.exitCode_eq_zero_iff (h : Matched files patterns expansions) (coloured : Bool)
    (hloads : ∀ path ∈ expansions.flatten, Loads files path) :
    (runFixtures files coloured patterns).exitCode = 0 ↔
      ∀ path ∈ expansions.flatten, ∀ fixture, loadFixture files path = .ok fixture →
        validate fixture.libraries fixture.input = fixture.expect := by
  have hsorted := (inPathOrder_mergeSort expansions.flatten).perm
  have hcode (count : Nat) : (if count = 0 then 0 else 1) = 0 ↔ count = 0 := by simp
  rw [h.run_of_loads coloured hloads, hcode, mismatches_eq_zero_iff]
  constructor
  · intro hpasses path hpath fixture hfixture
    exact hpasses (path, fixture) (mem_entriesOf_iff.2 ⟨hsorted.mem_iff.2 hpath, hfixture⟩)
  · intro hpasses entry hentry
    obtain ⟨hpath, hload⟩ := mem_entriesOf_iff.1 hentry
    exact hpasses entry.1 (hsorted.mem_iff.1 hpath) entry.2 hload

/-- A run that ends at the first path in order that holds no fixture. -/
private theorem Matched.exists_run_of_not_loads (h : Matched files patterns expansions)
    (coloured : Bool) (hmissing : ∃ path ∈ expansions.flatten, ¬ Loads files path) :
    ∃ before path error rest, InPathOrder (before ++ path :: rest) expansions.flatten ∧
      (∀ earlier ∈ before, Loads files earlier) ∧ loadFixture files path = .error error ∧
      runFixtures files coloured patterns =
        ⟨1, "", String.join (reports coloured (entriesOf files before)) ++
          ("error: " ++ Text.joined ": " error.chain ++ "\n"), files⟩ := by
  have hsorted := inPathOrder_mergeSort expansions.flatten
  obtain ⟨missing, hmem, hnot⟩ := hmissing
  obtain ⟨error, before, path, rest, hsplit, hbefore, herror⟩ :=
    exists_failsFirst ⟨missing, hsorted.perm.mem_iff.2 hmem, hnot⟩
  -- What comes after the failing path is never looked at.
  refine ⟨before, path, error, rest, hsplit ▸ hsorted, hbefore, herror, ?_⟩
  rw [h.runFixtures_eq, hsplit, runPaths_of_error coloured hbefore herror]

/-- Patterns in another order match the same paths as often, so that the same fixtures run. -/
private theorem perm_entriesOf_of_perm (files : FileTree) {reordered : List (List String)}
    (hperm : reordered.Perm expansions) :
    (entriesOf files (reordered.flatten.mergeSort PathText.atMost)).Perm
      (entriesOf files (expansions.flatten.mergeSort PathText.atMost)) := by
  have hreordered := (inPathOrder_mergeSort reordered.flatten).perm
  have hexpansions := (inPathOrder_mergeSort expansions.flatten).perm
  exact ((hreordered.trans hperm.flatten).trans hexpansions.symm).filterMap (loaded? files)

end

/-- The matched paths of all patterns decide a run together.  If they all hold fixtures, each is
reported as often as it is matched and in path order, and the run succeeds just when all of them
are validated as they expect; the order of the patterns does not matter.  Otherwise the run fails at
the first that holds none. -/
theorem matched_fixtures_decide_run {files : FileTree} {patterns : List String}
    {expansions : List (List String)} (hmatched : Matched files patterns expansions)
    (coloured : Bool) :
    ((∀ path ∈ expansions.flatten, Loads files path) →
      ∃ entries : List (String × Fixture),
        InPathOrder (entries.map Prod.fst) expansions.flatten ∧
        (∀ entry ∈ entries, loadFixture files entry.1 = .ok entry.2) ∧
        runFixtures files coloured patterns =
          ⟨if mismatches entries = 0 then 0 else 1, "",
            String.join (reports coloured entries) ++
              (summaryText expansions.flatten.length (mismatches entries) ++ "\n"), files⟩ ∧
        ((runFixtures files coloured patterns).exitCode = 0 ↔
          ∀ path ∈ expansions.flatten, ∀ fixture, loadFixture files path = .ok fixture →
            validate fixture.libraries fixture.input = fixture.expect) ∧
        ((∀ entry ∈ entries, OneLine entry) →
          Text.pieces '\n' (runFixtures files coloured patterns).errors =
            entries.flatMap (reportLines coloured) ++
              [summaryText expansions.flatten.length (mismatches entries), ""]) ∧
        ∀ others, others.Perm patterns →
          ∃ reordered : List (String × Fixture), reordered.Perm entries ∧
            InPathOrder (reordered.map Prod.fst) expansions.flatten ∧
            runFixtures files coloured others =
              ⟨(runFixtures files coloured patterns).exitCode, "",
                String.join (reports coloured reordered) ++
                  (summaryText expansions.flatten.length (mismatches entries) ++ "\n"),
                files⟩) ∧
    ((∃ path ∈ expansions.flatten, ¬ Loads files path) →
      ∃ (entries : List (String × Fixture)) (path : String) (error : LoadError)
        (rest : List String),
        InPathOrder (entries.map Prod.fst ++ path :: rest) expansions.flatten ∧
        (∀ entry ∈ entries, loadFixture files entry.1 = .ok entry.2) ∧
        loadFixture files path = .error error ∧
        runFixtures files coloured patterns =
          ⟨1, "", String.join (reports coloured entries) ++
            ("error: " ++ Text.joined ": " error.chain ++ "\n"), files⟩ ∧
        ((∀ entry ∈ entries, OneLine entry) →
          (∀ message ∈ error.chain, '\n' ∉ message.toList) → ∀ total failed,
            summaryText total failed ∉
              Text.pieces '\n' (runFixtures files coloured patterns).errors)) := by
  refine ⟨fun hloads => ?_, fun hmissing => ?_⟩
  · have hsorted := inPathOrder_mergeSort expansions.flatten
    have hrun := hmatched.run_of_loads coloured hloads
    refine ⟨_, inPathOrder_entriesOf hsorted hloads,
      fun entry hentry => (mem_entriesOf_iff.1 hentry).2, hrun,
      hmatched.exitCode_eq_zero_iff coloured hloads, fun hlines => ?_, fun others hperm => ?_⟩
    · rw [hrun]
      exact pieces_reports coloured hlines (newline_notMem_summaryText _ _)
    · -- Equal paths may be written in different ways, so that even the sorted lists can differ.
      obtain ⟨reordered, hothers, hreordered⟩ := hmatched.of_perm hperm
      have hpaths := hreordered.flatten
      have hloads' : ∀ path ∈ reordered.flatten, Loads files path :=
        fun path hpath => hloads path (hpaths.mem_iff.1 hpath)
      have hentries := perm_entriesOf_of_perm files hreordered
      refine ⟨_, hentries, ?_, ?_⟩
      · exact inPathOrder_entriesOf ((inPathOrder_mergeSort _).of_perm hpaths) hloads
      · rw [hothers.run_of_loads coloured hloads', hrun, mismatches_eq_of_perm hentries,
          hpaths.length_eq]
  · obtain ⟨before, path, error, rest, hordered, hbefore, herror, hrun⟩ :=
      hmatched.exists_run_of_not_loads coloured hmissing
    refine ⟨entriesOf files before, path, error, rest, ?_,
      fun entry hentry => (mem_entriesOf_iff.1 hentry).2, herror, hrun,
      fun hlines hmessages total failed => ?_⟩
    · rwa [map_fst_entriesOf hbefore]
    · have hchain : '\n' ∉ (Text.joined ": " error.chain).toList :=
        Text.notMem_joined (by decide) hmessages
      have hlast : '\n' ∉ ("error: " ++ Text.joined ": " error.chain).toList := by
        simp [hchain]
      rw [hrun, pieces_reports coloured hlines hlast]
      exact summaryText_notMem_lines coloured _ _ total failed

def fixtureShelf : FileTree :=
  ⟨[(["met.json"], .file "\x7b\"input\":0,\"expect\":[false,\"invalid-input\",[]]\x7d".toUTF8),
    (["cases"], .folder),
    (["cases", "unmet.json"], .file "\x7b\"input\":0,\"expect\":[true,\"\",[]]\x7d".toUTF8),
    (["notes"], .file "none".toUTF8)]⟩

theorem loadFixture_met : loadFixture fixtureShelf "met.json" =
    .ok ⟨"", .number (.integer 0), none, ⟨false, some .invalidInput, []⟩⟩ := by
  refine Fixture.loadFixture_of_written (.number (.integer 0))
    [.bool false, .string "invalid-input", .array []] rfl ?_ rfl
  decide +kernel

theorem loadFixture_unmet : loadFixture fixtureShelf "cases/unmet.json" =
    .ok ⟨"", .number (.integer 0), none, ⟨true, none, []⟩⟩ := by
  refine Fixture.loadFixture_of_written (.number (.integer 0))
    [.bool true, .string "", .array []] rfl ?_ rfl
  decide +kernel

theorem fixtureShelf_verdicts :
    (runFixtures fixtureShelf true ["met.json"]).exitCode = 0 ∧
    (∃ entries : List (String × Fixture),
      InPathOrder (entries.map Prod.fst) ["cases/unmet.json", "met.json", "cases/unmet.json"] ∧
      (runFixtures fixtureShelf true ["cases/*", "met.json", "cases/unmet.json"]).exitCode ≠ 0 ∧
      ∃ reordered : List (String × Fixture), reordered.Perm entries ∧
        (runFixtures fixtureShelf true ["met.json", "cases/*", "cases/unmet.json"]).exitCode =
          (runFixtures fixtureShelf true ["cases/*", "met.json", "cases/unmet.json"]).exitCode) ∧
    (runFixtures fixtureShelf true ["met.json", "notes"]).exitCode = 1 := by
  have hmet : Glob.expand fixtureShelf "met.json" = .ok ["met.json"] := by decide +kernel
  have hnotes : Glob.expand fixtureShelf "notes" = .ok ["notes"] := by decide +kernel
  have hfolder : Glob.expand fixtureShelf "cases/*" = .ok ["cases/unmet.json"] := by
    decide +kernel
  have hunmet : Glob.expand fixtureShelf "cases/unmet.json" = .ok ["cases/unmet.json"] := by
    decide +kernel
  have hmetLoads : Loads fixtureShelf "met.json" := ⟨_, loadFixture_met⟩
  have hunmetLoads : Loads fixtureShelf "cases/unmet.json" := ⟨_, loadFixture_unmet⟩
  refine ⟨?_, ?_, ?_⟩
  · obtain ⟨entries, -, -, -, hexit, -⟩ := (matched_fixtures_decide_run (.cons hmet .nil) true).1
      (by simp [hmetLoads])
    refine hexit.2 fun path hpath fixture hfixture => ?_
    obtain rfl := List.mem_singleton.1 hpath
    rw [loadFixture_met] at hfixture
    cases hfixture
    rfl
  · obtain ⟨entries, hordered, -, -, hexit, -, hothers⟩ :=
      (matched_fixtures_decide_run (.cons hfolder (.cons hmet (.cons hunmet .nil))) true).1
        (by simp [hmetLoads, hunmetLoads])
    obtain ⟨reordered, hperm, -, hrun⟩ := hothers _ (.swap _ _ _)
    refine ⟨entries, hordered, fun hpasses => ?_, reordered, hperm, by rw [hrun]⟩
    have hsame := hexit.1 hpasses "cases/unmet.json" (by simp) _ loadFixture_unmet
    cases hsame
  · obtain ⟨entries, path, error, rest, -, -, -, hrun, -⟩ :=
      (matched_fixtures_decide_run (.cons hmet (.cons hnotes .nil)) true).2
        ⟨"notes", by simp, fun ⟨fixture, hfixture⟩ => by cases hfixture⟩
    rw [hrun]

end CommandLine

end TreeSyntax
