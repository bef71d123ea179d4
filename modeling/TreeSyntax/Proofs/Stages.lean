import TreeSyntax.Proofs.Reports

/-!
# Checks that cannot load everything

A check loads in stages, and nothing is printed or written before the last of them is done.  The
first stage that fails ends the run, with the error of the first of its items that fails; the file
tree stays as it was.  What a program is worth never makes a stage fail.
-/

namespace TreeSyntax.CommandLine

/-! ## The first failing item -/

section

variable {α β γ ε ι : Type}

def FailsFirst (f : α → Except ε β) (items : List α) (error : ε) : Prop :=
  ∃ before item after, items = before ++ item :: after ∧
    (∀ earlier ∈ before, ∃ result, f earlier = .ok result) ∧ f item = .error error

theorem FailsFirst.cons_iff {f : α → Except ε β} {item : α} {items : List α} {error : ε} :
    FailsFirst f (item :: items) error ↔
      f item = .error error ∨ (∃ result, f item = .ok result) ∧ FailsFirst f items error := by
  constructor
  · rintro ⟨before, failing, after, hitems, hbefore, herror⟩
    cases before with
    | nil =>
        obtain ⟨rfl, -⟩ := List.cons.inj hitems
        exact .inl herror
    | cons first before =>
        obtain ⟨rfl, rfl⟩ := List.cons.inj hitems
        obtain ⟨hfirst, hbefore⟩ := List.forall_mem_cons.1 hbefore
        exact .inr ⟨hfirst, before, failing, after, rfl, hbefore, herror⟩
  · rintro (herror | ⟨hitem, before, failing, after, rfl, hbefore, herror⟩)
    · exact ⟨[], item, items, rfl, List.forall_mem_nil _, herror⟩
    · exact ⟨item :: before, failing, after, rfl, List.forall_mem_cons.2 ⟨hitem, hbefore⟩, herror⟩

theorem mapM_eq_error_iff {f : α → Except ε β} {items : List α} {error : ε} :
    items.mapM f = .error error ↔ FailsFirst f items error := by
  induction items with
  | nil => simp [FailsFirst, List.mapM_nil, pure, Except.pure]
  | cons item items ih =>
      rw [List.mapM_cons, FailsFirst.cons_iff, ← ih]
      cases hitem : f item with
      | error found => simp [bind, Except.bind]
      | ok result =>
          cases items.mapM f <;> simp [bind, Except.bind, pure, Except.pure]

theorem map_eq_error_iff {convert : α → β} {checked : Except ε α} {error : ε} :
    checked.map convert = .error error ↔ checked = .error error := by
  cases checked <;> simp [Except.map]

theorem mapError_eq_error_iff {convert : ε → ι} {checked : Except ε α} {error : ι} :
    checked.mapError convert = .error error ↔
      ∃ inner, checked = .error inner ∧ error = convert inner := by
  cases checked <;> simp [Except.mapError, eq_comm]

theorem ofLoaded_eq_error_iff {context messages : List String} {loaded : Loaded α} :
    Stage.ofLoaded context loaded = .error messages ↔
      ∃ error, loaded = .error error ∧ messages = context ++ error.chain := by
  cases loaded <;> simp [Stage.ofLoaded, eq_comm]

end

theorem addSpecs_eq_mapM (manifest : Manifest) (specs : List String) :
    addSpecs manifest specs = (specs.mapM parseLibrarySpec).map (Entries.putAll manifest) := by
  induction specs generalizing manifest with
  | nil => rfl
  | cons spec specs ih =>
      rw [addSpecs, List.mapM_cons]
      cases parseLibrarySpec spec with
      | error error => rfl
      | ok target =>
          simp only [ih]
          cases specs.mapM parseLibrarySpec <;> rfl

theorem loadLibraries_eq_mapM (files : FileTree) (manifest : Manifest) :
    loadLibraries files manifest =
      (manifest.mapM fun entry => loadJson files entry.2).map (Entries.names manifest).zip := by
  induction manifest with
  | nil => rfl
  | cons entry manifest ih =>
      rw [loadLibraries, List.mapM_cons, ih]
      cases loadJson files entry.2 with
      | error error => rfl
      | ok library => cases manifest.mapM fun entry => loadJson files entry.2 <;> rfl

/-! ## Stages -/

inductive LoadStage where
  | manifest
  | specs
  | libraries
  | patterns
  | programs
  deriving DecidableEq, Repr

def LoadStage.rank : LoadStage → Nat
  | .manifest => 0
  | .specs => 1
  | .libraries => 2
  | .patterns => 3
  | .programs => 4

/-- A stage fails with the messages of the first of its items that does.  Programs are loaded side
by side, and any that fails may be the one that is told. -/
inductive StageFails (files : FileTree) (settings : CheckSettings) :
    LoadStage → List String → Prop
  | manifest {path : String} {error : LoadError} (hpath : settings.manifest = some path)
      (herror : loadManifest files path = .error error) :
      StageFails files settings .manifest
        (("failed to load library manifest " ++ path) :: error.chain)
  | specs {error : LoadError}
      (hfirst : FailsFirst parseLibrarySpec settings.librarySpecs error) :
      StageFails files settings .specs error.chain
  | libraries {manifest : Manifest} {error : LoadError}
      (hmanifest : fullManifest files settings = .ok manifest)
      (hfirst : FailsFirst (fun entry => loadJson files entry.2) manifest error) :
      StageFails files settings .libraries ("failed to load libraries" :: error.chain)
  | patterns {messages : List String}
      (hfirst : FailsFirst (expandInput files) settings.inputs messages) :
      StageFails files settings .patterns ("failed to resolve input file paths" :: messages)
  | programs {expansions : List (List String)} {path : String} {error : LoadError}
      (hinputs : List.Forall₂ (Expands files) settings.inputs expansions)
      (hpath : path ∈ expansions.flatten)
      (herror : loadProgram files path settings.jsonPointer = .error error) :
      StageFails files settings .programs error.chain

def StagePasses (files : FileTree) (settings : CheckSettings) (stage : LoadStage) : Prop :=
  ∀ messages, ¬ StageFails files settings stage messages

structure FailsEarliest (files : FileTree) (settings : CheckSettings) (stage : LoadStage)
    (messages : List String) : Prop where
  fails : StageFails files settings stage messages
  earlier : ∀ other : LoadStage, other.rank < stage.rank → StagePasses files settings other

section

variable {files : FileTree} {settings : CheckSettings} {manifest : Manifest}
  {libraries : Libraries} {messages : List String}

theorem baseManifest_eq_error_iff :
    baseManifest files settings.manifest = .error messages ↔
      StageFails files settings .manifest messages := by
  constructor
  · intro h
    cases hpath : settings.manifest with
    | none => simp [hpath, baseManifest] at h
    | some path =>
        rw [hpath, baseManifest, ofLoaded_eq_error_iff] at h
        obtain ⟨error, herror, rfl⟩ := h
        exact .manifest hpath herror
  · intro h
    cases h with
    | manifest hpath herror =>
        rw [hpath, baseManifest, ofLoaded_eq_error_iff]
        exact ⟨_, herror, rfl⟩

theorem specs_eq_error_iff (manifest : Manifest) :
    Stage.ofLoaded [] (addSpecs manifest settings.librarySpecs) = .error messages ↔
      StageFails files settings .specs messages := by
  simp only [ofLoaded_eq_error_iff, addSpecs_eq_mapM, map_eq_error_iff, mapM_eq_error_iff,
    List.nil_append]
  constructor
  · rintro ⟨error, hfirst, rfl⟩
    exact .specs hfirst
  · intro h
    cases h with
    | specs hfirst => exact ⟨_, hfirst, rfl⟩

theorem librariesOf_eq_error_iff (hmanifest : fullManifest files settings = .ok manifest) :
    librariesOf files manifest = .error messages ↔
      StageFails files settings .libraries messages := by
  simp only [librariesOf, ofLoaded_eq_error_iff, loadLibraries_eq_mapM, map_eq_error_iff,
    mapM_eq_error_iff, List.singleton_append]
  constructor
  · rintro ⟨error, hfirst, rfl⟩
    exact .libraries hmanifest hfirst
  · intro h
    cases h with
    | libraries hmanifest' hfirst =>
        obtain rfl := Except.ok.inj (hmanifest.symm.trans hmanifest')
        exact ⟨_, hfirst, rfl⟩

theorem inputPaths_eq_error_iff :
    inputPaths files settings.inputs = .error messages ↔
      StageFails files settings .patterns messages := by
  simp only [inputPaths, mapError_eq_error_iff, expandInputs_eq_mapM, map_eq_error_iff,
    mapM_eq_error_iff]
  constructor
  · rintro ⟨inner, hfirst, rfl⟩
    exact .patterns hfirst
  · intro h
    cases h with
    | patterns hfirst => exact ⟨_, hfirst, rfl⟩

/-- Only a program that cannot be loaded makes the check of its file fail, whatever the others
are worth. -/
theorem checkFile_eq_error_iff {path : String} {error : LoadError} :
    checkFile files settings libraries path = .error error ↔
      loadProgram files path settings.jsonPointer = .error error := by
  rw [checkFile]
  cases loadProgram files path settings.jsonPointer <;> simp

theorem stageFails_programs_of_checkFiles {expansions : List (List String)} {error : LoadError}
    (hinputs : List.Forall₂ (Expands files) settings.inputs expansions)
    (h : checkFiles files settings libraries expansions.flatten = .error error) :
    StageFails files settings .programs error.chain := by
  rw [checkFiles_eq_mapM, mapM_eq_error_iff] at h
  obtain ⟨before, path, after, hpaths, -, herror⟩ := h
  have hpath : path ∈ expansions.flatten := by simp [hpaths]
  exact .programs hinputs hpath (checkFile_eq_error_iff.1 herror)

theorem stagePasses_programs {expansions : List (List String)} {reports : List FileReport}
    (hinputs : List.Forall₂ (Expands files) settings.inputs expansions)
    (hreports : List.Forall₂
      (fun path report => checkFile files settings libraries path = .ok report)
      expansions.flatten reports) :
    StagePasses files settings .programs := by
  intro messages h
  cases h with
  | programs hinputs' hpath herror =>
      have hpaths := expandInputs_eq_ok_iff.2 ⟨_, hinputs, rfl⟩
      rw [expandInputs_eq_ok_iff.2 ⟨_, hinputs', rfl⟩] at hpaths
      rw [Except.ok.inj hpaths] at hpath
      obtain ⟨before, after, hsplit⟩ := List.append_of_mem hpath
      rw [hsplit] at hreports
      obtain ⟨-, right, -, hright, -⟩ := forall₂_append_left_iff.1 hreports
      obtain ⟨report, -, hreport, -, -⟩ := List.forall₂_cons_left_iff.1 hright
      rw [checkFile_eq_error_iff.2 herror] at hreport
      cases hreport

/-! ## The manifest and the specs -/

theorem fullManifest_of_ok {base : Manifest}
    (hbase : baseManifest files settings.manifest = .ok base) :
    fullManifest files settings = Stage.ofLoaded [] (addSpecs base settings.librarySpecs) := by
  rw [fullManifest, hbase]

theorem stagePasses_manifest {base : Manifest}
    (hbase : baseManifest files settings.manifest = .ok base) :
    StagePasses files settings .manifest := by
  intro messages hfails
  rw [baseManifest_eq_error_iff.2 hfails] at hbase
  cases hbase

theorem stagePasses_of_fullManifest (h : fullManifest files settings = .ok manifest) :
    StagePasses files settings .manifest ∧ StagePasses files settings .specs := by
  cases hbase : baseManifest files settings.manifest with
  | error messages => simp [fullManifest, hbase] at h
  | ok base =>
      rw [fullManifest_of_ok hbase] at h
      refine ⟨stagePasses_manifest hbase, ?_⟩
      intro messages hfails
      rw [(specs_eq_error_iff base).2 hfails] at h
      cases h

theorem failsEarliest_of_fullManifest (h : fullManifest files settings = .error messages) :
    ∃ stage, FailsEarliest files settings stage messages := by
  cases hbase : baseManifest files settings.manifest with
  | error found =>
      simp only [fullManifest, hbase, Except.error.injEq] at h
      subst h
      exact ⟨.manifest, baseManifest_eq_error_iff.1 hbase, nofun⟩
  | ok base =>
      rw [fullManifest_of_ok hbase, specs_eq_error_iff] at h
      refine ⟨.specs, h, ?_⟩
      intro other hother
      cases other with
      | manifest => exact stagePasses_manifest hbase
      | _ => simp [LoadStage.rank] at hother

/-! ## All stages -/

theorem stagePasses_libraries (hmanifest : fullManifest files settings = .ok manifest)
    (hlibraries : librariesOf files manifest = .ok libraries) :
    StagePasses files settings .libraries := by
  intro messages hfails
  rw [(librariesOf_eq_error_iff hmanifest).2 hfails] at hlibraries
  cases hlibraries

theorem stagePasses_patterns {expansions : List (List String)}
    (hinputs : List.Forall₂ (Expands files) settings.inputs expansions) :
    StagePasses files settings .patterns := by
  intro messages hfails
  have herror := inputPaths_eq_error_iff.2 hfails
  rw [inputPaths, expandInputs_eq_ok_iff.2 ⟨_, hinputs, rfl⟩] at herror
  cases herror

private theorem expands_of_inputPaths {paths : List String}
    (h : inputPaths files settings.inputs = .ok paths) :
    ∃ expansions, List.Forall₂ (Expands files) settings.inputs expansions ∧
      paths = expansions.flatten := by
  rw [← expandInputs_eq_ok_iff]
  rw [inputPaths] at h
  cases hpaths : expandInputs files settings.inputs with
  | error messages => simp [hpaths, Except.mapError] at h
  | ok found =>
      rw [hpaths] at h
      exact congrArg Except.ok (Except.ok.inj h)

theorem exists_libraries_of_reportsOf {reports : List FileReport}
    (h : reportsOf files settings = .ok reports) :
    ∃ manifest libraries, fullManifest files settings = .ok manifest ∧
      librariesOf files manifest = .ok libraries := by
  cases hmanifest : fullManifest files settings with
  | error messages => simp [reportsOf, hmanifest] at h
  | ok manifest =>
      cases hlibraries : librariesOf files manifest with
      | error messages => simp [reportsOf, hmanifest, hlibraries] at h
      | ok libraries => exact ⟨manifest, libraries, rfl, hlibraries⟩

private theorem exists_programs_of_forall₂_checkFile {paths : List String}
    {reports : List FileReport}
    (h : List.Forall₂ (fun path report => checkFile files settings libraries path = .ok report)
      paths reports) :
    ∃ programs,
      List.Forall₂ (fun path program => loadProgram files path settings.jsonPointer = .ok program)
        paths programs ∧
      reports.map FileReport.outcome =
        programs.map (validateWith settings.options (some libraries)) := by
  induction h with
  | nil => exact ⟨[], .nil, rfl⟩
  | @cons path report paths reports hreport _ ih =>
      obtain ⟨programs, hprograms, houtcomes⟩ := ih
      cases hprogram : loadProgram files path settings.jsonPointer with
      | error error =>
          rw [checkFile_eq_error_iff.2 hprogram] at hreport
          cases hreport
      | ok program =>
          rw [checkFile, hprogram] at hreport
          obtain rfl := Except.ok.inj hreport
          exact ⟨program :: programs, .cons hprogram hprograms, congrArg (_ :: ·) houtcomes⟩

private theorem stagePasses_of_reportsOf {reports : List FileReport}
    (h : reportsOf files settings = .ok reports) (stage : LoadStage) :
    StagePasses files settings stage := by
  obtain ⟨manifest, libraries, hmanifest, hlibraries⟩ := exists_libraries_of_reportsOf h
  obtain ⟨expansions, hinputs, hreports⟩ := (reportsOf_eq_ok_iff hmanifest hlibraries).1 h
  have hfirst := stagePasses_of_fullManifest hmanifest
  cases stage with
  | manifest => exact hfirst.1
  | specs => exact hfirst.2
  | libraries => exact stagePasses_libraries hmanifest hlibraries
  | patterns => exact stagePasses_patterns hinputs
  | programs => exact stagePasses_programs hinputs hreports

private theorem failsEarliest_of_reportsOf (h : reportsOf files settings = .error messages) :
    ∃ stage, FailsEarliest files settings stage messages := by
  cases hfull : fullManifest files settings with
  | error found =>
      simp only [reportsOf, hfull, Except.error.injEq] at h
      exact failsEarliest_of_fullManifest (h ▸ hfull)
  | ok manifest =>
      obtain ⟨hmanifest, hspecs⟩ := stagePasses_of_fullManifest hfull
      cases hlibraries : librariesOf files manifest with
      | error found =>
          simp only [reportsOf, hfull, hlibraries, Except.error.injEq] at h
          subst h
          refine ⟨.libraries, (librariesOf_eq_error_iff hfull).1 hlibraries, ?_⟩
          intro other hother
          cases other with
          | manifest => exact hmanifest
          | specs => exact hspecs
          | _ => simp [LoadStage.rank] at hother
      | ok libraries =>
          have hpass := stagePasses_libraries hfull hlibraries
          cases hpaths : inputPaths files settings.inputs with
          | error found =>
              simp only [reportsOf, hfull, hlibraries, hpaths, Except.error.injEq] at h
              subst h
              refine ⟨.patterns, inputPaths_eq_error_iff.1 hpaths, ?_⟩
              intro other hother
              cases other with
              | manifest => exact hmanifest
              | specs => exact hspecs
              | libraries => exact hpass
              | _ => simp [LoadStage.rank] at hother
          | ok paths =>
              obtain ⟨expansions, hinputs, rfl⟩ := expands_of_inputPaths hpaths
              simp only [reportsOf, hfull, hlibraries, hpaths, ofLoaded_eq_error_iff] at h
              obtain ⟨error, herror, rfl⟩ := h
              refine ⟨.programs, stageFails_programs_of_checkFiles hinputs herror, ?_⟩
              intro other hother
              cases other with
              | manifest => exact hmanifest
              | specs => exact hspecs
              | libraries => exact hpass
              | patterns => exact stagePasses_patterns hinputs
              | programs => simp [LoadStage.rank] at hother

end

/-! ## Runs -/

private theorem run_of_reportsOf_eq_error {files : FileTree} {coloured : Bool}
    {arguments : List String} {verbosity : Nat} {settings : CheckSettings} {messages : List String}
    (haccepted : parse? arguments = some ⟨verbosity, .check settings⟩)
    (hnoOp : settings.noOp = false) (h : reportsOf files settings = .error messages) :
    run files coloured arguments = .ofErrors files messages := by
  simp only [run, haccepted, runCommand, hnoOp, Bool.false_eq_true, if_false, runCheck, h]

/-- A check in which some stage fails prints no report, leaves the file tree as it was and ends
with the error of the earliest stage that fails.  One in which every stage passes writes its
report, whatever its programs are worth. -/
theorem failed_check_leaves_no_trace {files : FileTree} (coloured : Bool)
    {arguments : List String} {verbosity : Nat} {settings : CheckSettings}
    (haccepted : parse? arguments = some ⟨verbosity, .check settings⟩)
    (hnoOp : settings.noOp = false) :
    (∀ stage messages, StageFails files settings stage messages →
      ∃ earliest messages', FailsEarliest files settings earliest messages' ∧
        run files coloured arguments =
          ⟨1, "", "error: " ++ Text.joined ": " messages' ++ "\n", files⟩) ∧
    ((∀ stage, StagePasses files settings stage) →
      ∃ manifest libraries expansions programs reports,
        fullManifest files settings = .ok manifest ∧
        librariesOf files manifest = .ok libraries ∧
        List.Forall₂ (Expands files) settings.inputs expansions ∧
        List.Forall₂ (fun path program => loadProgram files path settings.jsonPointer = .ok program)
          expansions.flatten programs ∧
        reports.map FileReport.outcome =
          programs.map (validateWith settings.options (some libraries)) ∧
        run files coloured arguments = output files coloured settings reports ∧
        ((∀ path, settings.out = some path →
            (writeOut files path (report settings.format false reports)).2 = .ok ()) →
          (run files coloured arguments).errors = "")) := by
  constructor
  · intro stage messages hfails
    cases hreports : reportsOf files settings with
    | ok reports => exact absurd hfails (stagePasses_of_reportsOf hreports stage messages)
    | error found =>
        obtain ⟨earliest, hearliest⟩ := failsEarliest_of_reportsOf hreports
        exact ⟨earliest, found, hearliest, run_of_reportsOf_eq_error haccepted hnoOp hreports⟩
  · intro hpasses
    cases hreports : reportsOf files settings with
    | error found =>
        obtain ⟨earliest, hfails, -⟩ := failsEarliest_of_reportsOf hreports
        exact absurd hfails (hpasses earliest found)
    | ok reports =>
        obtain ⟨manifest, libraries, hmanifest, hlibraries⟩ :=
          exists_libraries_of_reportsOf hreports
        obtain ⟨expansions, hinputs, hchecked⟩ :=
          (reportsOf_eq_ok_iff hmanifest hlibraries).1 hreports
        obtain ⟨programs, hprograms, houtcomes⟩ := exists_programs_of_forall₂_checkFile hchecked
        have hrun : run files coloured arguments = output files coloured settings reports :=
          run_of_reportsOf haccepted hnoOp hreports
        refine ⟨manifest, libraries, expansions, programs, reports, hmanifest, hlibraries, hinputs,
          hprograms, houtcomes, hrun, ?_⟩
        intro hwritten
        rw [hrun]
        exact (output_delivers coloured hwritten).1.quiet

def brokenSpecSettings : CheckSettings where
  jsonPointer := none
  inputs := ["whole.json", "missing.json"]
  librarySpecs := ["nameless"]
  manifest := none
  checkLibraries := false
  maxDepth := 256
  format := .text
  out := some "new/report.txt"
  noOp := false

theorem brokenSpec_leaves_no_trace :
    let arguments := ["check", "-i", "whole.json", "missing.json", "--library", "nameless",
      "--out", "new/report.txt"]
    parse? arguments = some ⟨0, .check brokenSpecSettings⟩ ∧
    StageFails wholeAndPart brokenSpecSettings .programs
      ["failed to read missing.json: No such file or directory (os error 2)",
        "No such file or directory (os error 2)"] ∧
    run wholeAndPart true arguments =
      ⟨1, "", "error: library spec \"nameless\" is not of the form NAME=PATH\n", wholeAndPart⟩ := by
  intro arguments
  have hparse : parse? arguments = some ⟨0, .check brokenSpecSettings⟩ := by decide +kernel
  have hspecs : brokenSpecSettings.librarySpecs.mapM parseLibrarySpec =
      .error (.badLibrarySpec "nameless") := rfl
  have hinputs : List.Forall₂ (Expands wholeAndPart) brokenSpecSettings.inputs
      [["whole.json"], ["missing.json"]] :=
    .cons (.literal (by simp [globCharacters])) (.cons (.literal (by simp [globCharacters])) .nil)
  have hmissing : loadProgram wholeAndPart "missing.json" none =
      .error (.unreadable "missing.json" .notFound) := rfl
  have hprograms : StageFails wholeAndPart brokenSpecSettings .programs _ :=
    .programs hinputs (by decide) hmissing
  refine ⟨hparse, hprograms, ?_⟩
  -- Of the two stages that fail, the specs come first.
  obtain ⟨earliest, messages, ⟨hfails, hearlier⟩, hrun⟩ :=
    (failed_check_leaves_no_trace true hparse rfl).1 _ _ hprograms
  rw [hrun]
  cases earliest with
  | manifest =>
      cases hfails with
      | manifest hpath => cases hpath
  | specs =>
      cases hfails with
      | specs hfirst =>
          rw [mapM_eq_error_iff.2 hfirst] at hspecs
          obtain rfl := Except.error.inj hspecs
          have hquoted : Text.quoted "nameless" = "\"nameless\"" := by decide +kernel
          simp [LoadError.chain, Text.joined, hquoted]
  | _ => exact absurd (.specs (mapM_eq_error_iff.1 hspecs)) (hearlier .specs (by decide) _)

end TreeSyntax.CommandLine
