import TreeSyntax.Proofs.Printed
import TreeSyntax.Proofs.Wire
import TreeSyntax.Proofs.Written

/-!
# The reports of a check

A check that loads everything has one report for each path that its inputs stand for, in their
order, and a report tells how the program at its path was validated.  Both formats, the exit code
and the file that a report is written to speak of this one list.
-/

namespace TreeSyntax

/-! ## Texts of lines -/

namespace Text

/-- Lines that are ended one by one, and a last one that is not, are the pieces of their text. -/
theorem pieces_lines {lines : List String} {last : String}
    (hlines : ∀ line ∈ lines, '\n' ∉ line.toList) (hlast : '\n' ∉ last.toList) :
    pieces '\n' (String.join (lines.map (· ++ "\n")) ++ last) = lines ++ [last] := by
  rw [pieces, String.toList_append, String.toList_join, List.flatMap_map]
  induction lines with
  | nil => simp [piecesOf_of_notMem hlast]
  | cons line lines ih =>
      obtain ⟨hline, hlines⟩ := List.forall_mem_cons.1 hlines
      have hbreak : (line ++ "\n").toList = line.toList ++ ['\n'] := by simp
      rw [List.flatMap_cons, hbreak, List.append_assoc, List.append_assoc, List.singleton_append,
        piecesOf_append, piecesOf_of_notMem hline, List.singleton_append, List.map_cons, ih hlines,
        String.ofList_toList, List.cons_append]

theorem notMem_joined {character : Char} {between : String} {pieces : List String}
    (hbetween : character ∉ between.toList) (h : ∀ piece ∈ pieces, character ∉ piece.toList) :
    character ∉ (joined between pieces).toList := by
  fun_induction joined between pieces with
  | case1 => simp
  | case2 piece => simpa using h
  | case3 piece pieces hmore ih =>
      obtain ⟨hpiece, hpieces⟩ := List.forall_mem_cons.1 h
      simp [hpiece, hbetween, ih hpieces]

private theorem newline_notMem_reopened (style : Style) {text : List Char} (h : '\n' ∉ text) :
    '\n' ∉ reopened style text := by
  have hreset : '\n' ∉ reset := by decide
  have hcode : '\n' ∉ rendition style.code := by cases style <;> decide
  fun_induction reopened style text with
  | case1 rest ih =>
      simp only [List.mem_cons, not_or] at h
      simp [hreset, hcode, ih h.2.2.2.2]
  | case2 character rest hother ih =>
      obtain ⟨hcharacter, hrest⟩ := not_or.1 (mt List.mem_cons.2 h)
      exact fun hmem => (List.mem_cons.1 hmem).elim hcharacter (ih hrest)
  | case3 => simp

theorem newline_notMem_styled (coloured : Bool) (style : Style) {text : String}
    (h : '\n' ∉ text.toList) : '\n' ∉ (styled coloured style text).toList := by
  have hreset : '\n' ∉ reset := by decide
  have hcode : '\n' ∉ rendition style.code := by cases style <;> decide
  cases coloured with
  | false => exact h
  | true => simp [styled, hreset, hcode, newline_notMem_reopened style h]

end Text

namespace CommandLine

/-! ## Results of two parts -/

theorem forall₂_append_left_iff {α β : Type} {related : α → β → Prop} {first second : List α}
    {results : List β} :
    List.Forall₂ related (first ++ second) results ↔
      ∃ left right, List.Forall₂ related first left ∧ List.Forall₂ related second right ∧
        results = left ++ right := by
  constructor
  · intro h
    induction first generalizing results with
    | nil => exact ⟨[], results, .nil, h, rfl⟩
    | cons item first ih =>
        obtain ⟨result, more, hitem, hmore, rfl⟩ := List.forall₂_cons_left_iff.1 h
        obtain ⟨left, right, hleft, hright, rfl⟩ := ih hmore
        exact ⟨result :: left, right, .cons hitem hleft, hright, rfl⟩
  · rintro ⟨left, right, hleft, hright, rfl⟩
    exact List.rel_append hleft hright

/-! ## Expansions -/

def globCharacters : List Char := ['*', '?', '[', '\x7b']

/-- What an input argument stands for: itself, or the matches of a pattern in their order. -/
inductive Expands (files : FileTree) : String → List String → Prop
  | literal {argument : String}
      (hplain : ∀ character ∈ argument.toList, character ∉ globCharacters) :
      Expands files argument [argument]
  | pattern {argument : String} {paths : List String}
      (hglob : ∃ character ∈ argument.toList, character ∈ globCharacters)
      (hmatches : Glob.expand files argument = .ok paths) (hsome : paths ≠ []) :
      Expands files argument paths

@[simp] theorem isGlob_iff {argument : String} :
    isGlob argument = true ↔ ∃ character ∈ argument.toList, character ∈ globCharacters := by
  simp [isGlob, globCharacters, or_assoc]

section

variable {files : FileTree} {argument : String} {arguments paths : List String}

theorem expandInput_eq_ok_iff :
    expandInput files argument = .ok paths ↔ Expands files argument paths := by
  rw [expandInput]
  by_cases hglob : isGlob argument = true
  · rw [if_pos hglob]
    have hcharacters := isGlob_iff.1 hglob
    constructor
    · intro h
      -- A pattern that is no pattern and one without matches both end the run.
      split at h
      · cases h
      · cases h
      · next found hsome hfound =>
          cases h
          exact .pattern hcharacters hfound hsome
    · rintro (hplain | ⟨-, hmatches, hsome⟩)
      · obtain ⟨character, hmem, hspecial⟩ := hcharacters
        exact absurd hspecial (hplain character hmem)
      · rw [hmatches]
        cases paths with
        | nil => exact absurd rfl hsome
        | cons path paths => rfl
  · rw [if_neg hglob]
    constructor
    · rintro ⟨⟩
      exact .literal fun character hmem hspecial => hglob (isGlob_iff.2 ⟨character, hmem, hspecial⟩)
    · rintro (hplain | ⟨hcharacters, -, -⟩)
      · rfl
      · exact absurd (isGlob_iff.2 hcharacters) hglob

theorem expandInputs_eq_mapM (files : FileTree) (arguments : List String) :
    expandInputs files arguments =
      (arguments.mapM (expandInput files)).map List.flatten := by
  induction arguments with
  | nil => rfl
  | cons argument arguments ih =>
      rw [expandInputs, List.mapM_cons, ih]
      cases expandInput files argument with
      | error messages => rfl
      | ok paths => cases arguments.mapM (expandInput files) <;> rfl

theorem expandInputs_eq_ok_iff :
    expandInputs files arguments = .ok paths ↔
      ∃ expansions, List.Forall₂ (Expands files) arguments expansions ∧
        paths = expansions.flatten := by
  rw [expandInputs_eq_mapM, map_eq_ok_iff]
  refine exists_congr fun expansions => and_congr ?_ eq_comm
  simp only [mapM_eq_ok_iff, expandInput_eq_ok_iff]

end

/-! ## Reports -/

section

variable {files : FileTree} {settings : CheckSettings} {manifest : Manifest}
  {libraries : Libraries} {paths : List String} {reports : List FileReport}

theorem checkFiles_eq_mapM (files : FileTree) (settings : CheckSettings) (libraries : Libraries)
    (paths : List String) :
    checkFiles files settings libraries paths =
      paths.mapM (checkFile files settings libraries) := by
  induction paths with
  | nil => rfl
  | cons path paths ih =>
      rw [checkFiles, List.mapM_cons, ih]
      cases checkFile files settings libraries path with
      | error error => rfl
      | ok report => cases paths.mapM (checkFile files settings libraries) <;> rfl

theorem reportsOf_eq_ok_iff (hmanifest : fullManifest files settings = .ok manifest)
    (hlibraries : librariesOf files manifest = .ok libraries) :
    reportsOf files settings = .ok reports ↔
      ∃ expansions, List.Forall₂ (Expands files) settings.inputs expansions ∧
        List.Forall₂ (fun path report => checkFile files settings libraries path = .ok report)
          expansions.flatten reports := by
  simp only [reportsOf, hmanifest, hlibraries, inputPaths]
  constructor
  · intro h
    cases hpaths : expandInputs files settings.inputs with
    | error messages => simp [hpaths, Except.mapError] at h
    | ok paths =>
        obtain ⟨expansions, hexpansions, rfl⟩ := expandInputs_eq_ok_iff.1 hpaths
        refine ⟨expansions, hexpansions, mapM_eq_ok_iff.1 ?_⟩
        rw [← checkFiles_eq_mapM]
        simp only [hpaths, Except.mapError] at h
        cases hchecked : checkFiles files settings libraries expansions.flatten with
        | error error => simp [hchecked, Stage.ofLoaded] at h
        | ok found =>
            rw [hchecked] at h
            exact congrArg Except.ok (Except.ok.inj h)
  · rintro ⟨expansions, hexpansions, hreports⟩
    rw [expandInputs_eq_ok_iff.2 ⟨expansions, hexpansions, rfl⟩]
    simp only [Except.mapError, checkFiles_eq_mapM, mapM_eq_ok_iff.2 hreports, Stage.ofLoaded]

/-- The inputs may be checked in two runs: their reports follow one another. -/
theorem reportsOf_append_eq_ok_iff (hmanifest : fullManifest files settings = .ok manifest)
    (hlibraries : librariesOf files manifest = .ok libraries) (first second : List String) :
    reportsOf files { settings with inputs := first ++ second } = .ok reports ↔
      ∃ left right, reportsOf files { settings with inputs := first } = .ok left ∧
        reportsOf files { settings with inputs := second } = .ok right ∧
        reports = left ++ right := by
  have hreportsOf (inputs : List String) (reports : List FileReport) :
      reportsOf files { settings with inputs } = .ok reports ↔ _ :=
    reportsOf_eq_ok_iff hmanifest hlibraries
  simp only [hreportsOf]
  constructor
  · rintro ⟨expansions, hexpansions, hreports⟩
    obtain ⟨before, after, hbefore, hafter, rfl⟩ := forall₂_append_left_iff.1 hexpansions
    rw [List.flatten_append] at hreports
    obtain ⟨left, right, hleft, hright, rfl⟩ := forall₂_append_left_iff.1 hreports
    exact ⟨left, right, ⟨before, hbefore, hleft⟩, ⟨after, hafter, hright⟩, rfl⟩
  · rintro ⟨left, right, ⟨before, hbefore, hleft⟩, ⟨after, hafter, hright⟩, rfl⟩
    refine ⟨before ++ after, List.rel_append hbefore hafter, ?_⟩
    rw [List.flatten_append]
    exact List.rel_append hleft hright

end

/-! ## Reports as text -/

namespace FileReport

def body (coloured : Bool) (report : FileReport) : String :=
  if report.outcome.isValid then Text.styled coloured .green "✔" ++ " " ++ report.file
  else
    Text.styled coloured .red "✘" ++ " " ++ report.file ++ ": " ++
      Text.styled coloured .yellow report.outcome.text

private theorem line_eq_body (coloured : Bool) (report : FileReport) :
    report.line coloured = report.body coloured ++ "\n" := by
  rw [line, body]
  split <;> rfl

structure OneLine (report : FileReport) : Prop where
  file : '\n' ∉ report.file.toList
  path : ∀ segment ∈ report.outcome.errorPath, '\n' ∉ segment.toList

private theorem OneLine.outcome_text {report : FileReport} (h : report.OneLine) :
    '\n' ∉ report.outcome.text.toList := by
  have hpath : '\n' ∉ (pathText report.outcome.errorPath).toList := by
    have hjoined : '\n' ∉ (Text.joined ", " report.outcome.errorPath).toList :=
      Text.notMem_joined (by decide) h.path
    simp [pathText, hjoined]
  rw [Outcome.text]
  split
  · next code hcode =>
      have hname : '\n' ∉ code.name.toList := by cases code <;> decide
      simp [hname, hpath]
  · split
    · decide
    · simp [hpath]

theorem OneLine.body {report : FileReport} (h : report.OneLine) (coloured : Bool) :
    '\n' ∉ (report.body coloured).toList := by
  have hvalid : '\n' ∉ (Text.styled coloured .green "✔").toList :=
    Text.newline_notMem_styled coloured .green (by decide)
  have hinvalid : '\n' ∉ (Text.styled coloured .red "✘").toList :=
    Text.newline_notMem_styled coloured .red (by decide)
  rw [FileReport.body]
  split
  · simp [hvalid, h.file]
  · simp [hinvalid, h.file, Text.newline_notMem_styled coloured .yellow h.outcome_text]

end FileReport

theorem newline_notMem_toDigits (number : Nat) : '\n' ∉ Nat.toDigits 10 number := by
  intro hmem
  exact absurd (Nat.isDigit_of_mem_toDigits (by decide) (by decide) hmem) (by decide)

private theorem newline_notMem_summaryLine (reports : List FileReport) :
    '\n' ∉ (summaryLine reports).toList := by
  show '\n' ∉ (toString reports.length ++ " checked, " ++ toString (invalidCount reports) ++
    " invalid").toList
  simp [newline_notMem_toDigits]

theorem textReport_eq (coloured : Bool) (reports : List FileReport) :
    textReport coloured reports =
      String.join ((reports.map (FileReport.body coloured)).map (· ++ "\n")) ++
        summaryLine reports := by
  rw [textReport, List.map_map]
  congr 2
  exact List.map_congr_left fun report _ => report.line_eq_body coloured

/-- One line for each report in order, and a last one that counts them. -/
theorem pieces_textReport {reports : List FileReport} (h : ∀ report ∈ reports, report.OneLine)
    (coloured : Bool) :
    Text.pieces '\n' (textReport coloured reports) =
      reports.map (FileReport.body coloured) ++ [summaryLine reports] := by
  rw [textReport_eq]
  refine Text.pieces_lines ?_ (newline_notMem_summaryLine reports)
  intro line hline
  obtain ⟨report, hreport, rfl⟩ := List.mem_map.1 hline
  exact (h report hreport).body coloured

/-! ## Reports as values -/

namespace FileReport

private theorem numberFree_toJson (report : FileReport) : report.toJson.NumberFree := by
  have hpath : ∀ segment ∈ report.outcome.errorPath.map Json.string, segment.NumberFree := by
    intro segment hsegment
    obtain ⟨text, -, rfl⟩ := List.mem_map.1 hsegment
    trivial
  exact ⟨trivial, trivial, trivial, Json.numberFreeItems_iff.2 hpath, trivial⟩

private theorem wellFormed_toJson (report : FileReport) : report.toJson.WellFormed := by
  have hpath : ∀ segment ∈ report.outcome.errorPath.map Json.string, segment.WellFormed := by
    intro segment hsegment
    obtain ⟨text, -, rfl⟩ := List.mem_map.1 hsegment
    trivial
  refine ⟨?_, trivial, trivial, trivial, Json.wellFormedItems_iff.2 hpath, trivial⟩
  show ["file", "isValid", "errorCode", "errorPath"].Nodup
  decide

private theorem nesting_toJson_le (report : FileReport) : report.toJson.nesting ≤ 2 := by
  have hpath : ∀ segment ∈ report.outcome.errorPath.map Json.string, segment.nesting ≤ 0 := by
    intro segment hsegment
    obtain ⟨text, -, rfl⟩ := List.mem_map.1 hsegment
    exact Nat.le_refl 0
  have hitems := Json.nestingOfItems_le_iff.2 hpath
  simp only [toJson, Outcome.toMembers, Json.nesting, Json.nestingOfMembers]
  omega

end FileReport

/-- A report is read back from its text, with blanks after it or none. -/
theorem parse_reportsJson (reports : List FileReport) {blanks : String}
    (hblank : Json.AllBlank blanks.toList) :
    Json.parse ((reportsJson reports).indented ++ blanks) =
      .ok (.array (reports.map FileReport.toJson)) := by
  have hmap {holds : Json → Prop} (h : ∀ report : FileReport, holds report.toJson) :
      ∀ item ∈ reports.map FileReport.toJson, holds item := by
    intro item hitem
    obtain ⟨report, -, rfl⟩ := List.mem_map.1 hitem
    exact h report
  refine Json.parse_indented ?_ ?_ ?_ hblank
  · exact Json.numberFreeItems_iff.2 (hmap FileReport.numberFree_toJson)
  · exact Json.wellFormedItems_iff.2 (hmap FileReport.wellFormed_toJson)
  · have hitems := Json.nestingOfItems_le_iff.2 (hmap FileReport.nesting_toJson_le)
    exact Nat.le_trans (Nat.succ_le_succ hitems) (by decide)

/-! ## Runs -/

theorem invalidCount_eq_zero_iff {reports : List FileReport} :
    invalidCount reports = 0 ↔ ∀ report ∈ reports, report.outcome.isValid = true := by
  simp [invalidCount]

theorem exitCodeOf_eq_zero_iff {reports : List FileReport} :
    exitCodeOf reports = 0 ↔ invalidCount reports = 0 := by
  rw [invalidCount_eq_zero_iff, ← List.all_eq_true, exitCodeOf]
  split <;> simp_all [Run.succeeded, Run.failed]

structure Delivers (files : FileTree) (out : Option String) (text : String) (result : Run) :
    Prop where
  quiet : result.errors = ""
  shown : out = none → result.output = text ++ "\n" ∧ result.files = files
  saved : ∀ path, out = some path → result.output = "" ∧
    result.files = (writeOut files path text).1 ∧
    (result.files.read path = .ok text ∨ result.files.LeadsOutside path)

section

variable {files : FileTree} {settings : CheckSettings} {reports : List FileReport}

theorem output_delivers (coloured : Bool)
    (hwritten : ∀ path, settings.out = some path →
      (writeOut files path (report settings.format false reports)).2 = .ok ()) :
    Delivers files settings.out (report settings.format (coloured && settings.out.isNone) reports)
        (output files coloured settings reports) ∧
      (output files coloured settings reports).exitCode = exitCodeOf reports := by
  cases hout : settings.out with
  | none =>
      have hrun : output files coloured settings reports =
          ⟨exitCodeOf reports, report settings.format coloured reports ++ "\n", "", files⟩ := by
        simp only [output, hout]
      rw [hrun, Option.isNone_none, Bool.and_true]
      exact ⟨⟨rfl, fun _ => ⟨rfl, rfl⟩, nofun⟩, rfl⟩
  | some path =>
      have hok := hwritten path hout
      have hread := read_writeOut hok
      have hrun : output files coloured settings reports = ⟨exitCodeOf reports, "", "",
          (writeOut files path (report settings.format false reports)).1⟩ := by
        rw [output, hout]
        cases hwrite : writeOut files path (report settings.format false reports) with
        | mk changed result =>
            rw [hwrite] at hok
            cases hok
            simp only [hwrite]
      rw [hrun, Option.isNone_some, Bool.and_false]
      refine ⟨⟨rfl, nofun, ?_⟩, rfl⟩
      rintro _ ⟨⟩
      exact ⟨rfl, rfl, hread⟩

theorem run_of_reportsOf {coloured : Bool} {arguments : List String} {verbosity : Nat}
    (haccepted : parse? arguments = some ⟨verbosity, .check settings⟩)
    (hnoOp : settings.noOp = false) (hreports : reportsOf files settings = .ok reports) :
    run files coloured arguments = output files coloured settings reports := by
  simp only [run, haccepted, runCommand, hnoOp, Bool.false_eq_true, if_false, runCheck, hreports]

end

structure ReadsReport (entry : Json) (report : FileReport) : Prop where
  file : entry.child? "file" = some (.string report.file)
  outcome : Outcome.ofJson entry = .ok report.outcome

private theorem readsReport_toJson (report : FileReport) : ReadsReport report.toJson report :=
  ⟨rfl, report.ofJson_toJson⟩

private theorem forall₂_checkFile {files : FileTree} {settings : CheckSettings}
    (libraries : Libraries) {paths : List String} {programs : List Json}
    (h : List.Forall₂
      (fun path program => loadProgram files path settings.jsonPointer = .ok program)
      paths programs) :
    ∃ reports,
      List.Forall₂ (fun path report => checkFile files settings libraries path = .ok report)
        paths reports ∧
      reports.map FileReport.file = paths ∧
      reports.map FileReport.outcome =
        programs.map (validateWith settings.options (some libraries)) := by
  induction h with
  | nil => exact ⟨[], .nil, rfl, rfl⟩
  | @cons path program paths programs hprogram _ ih =>
      obtain ⟨reports, hreports, hfiles, houtcomes⟩ := ih
      have hreport : checkFile files settings libraries path =
          .ok ⟨path, validateWith settings.options (some libraries) program⟩ := by
        rw [checkFile, hprogram]
      exact ⟨_ :: reports, .cons hreport hreports, congrArg (path :: ·) hfiles,
        congrArg (validateWith settings.options (some libraries) program :: ·) houtcomes⟩

def wholeAndPart : FileTree :=
  ⟨[(["whole.json"], .file "\x7b\"functions\":[]\x7d".toUTF8), (["parts"], .folder),
    (["parts", "empty.json"], .file "\x7b\x7d".toUTF8)]⟩

def wholeAndPartSettings : CheckSettings where
  jsonPointer := none
  inputs := ["whole.json", "parts/*"]
  librarySpecs := []
  manifest := none
  checkLibraries := false
  maxDepth := 256
  format := .text
  out := some "report.txt"
  noOp := false

theorem loadProgram_of_parse {files : FileTree} {path text : String} {program : Json}
    (hread : files.read path = .ok text) (hparse : Json.parse text = .ok program) :
    loadProgram files path none = .ok program := by
  simp only [loadProgram, loadJson, readFile, hread, hparse]

end CommandLine

end TreeSyntax
