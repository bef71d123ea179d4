import TreeSyntax.Proofs.Manifest
import TreeSyntax.Proofs.Stages

/-!
# Where libraries are named

A check finds its libraries through a manifest and through specs.  Both name a path each, the specs
after the manifest, and the last path of a name counts in the place where the name first came up.
So a manifest does what the specs of its entries would do.
-/

namespace TreeSyntax

open Json (ObjectAt TargetAt)

/-! ## Specs -/

theorem splitAtEquals?_append {name : List Char} (hname : '=' ∉ name) (path : List Char) :
    splitAtEquals? (name ++ '=' :: path) = some (name, path) := by
  induction name with
  | nil => rfl
  | cons first name ih =>
      rw [List.mem_cons, not_or] at hname
      rw [List.cons_append, splitAtEquals?, ih hname.2, Option.map_some]
      exact Ne.symm hname.1

private theorem eq_append_of_splitAtEquals? {text name path : List Char}
    (h : splitAtEquals? text = some (name, path)) : '=' ∉ name ∧ text = name ++ '=' :: path := by
  fun_induction splitAtEquals? text generalizing name with
  | case1 => cases h
  | case2 rest =>
      cases h
      exact ⟨List.not_mem_nil, rfl⟩
  | case3 first rest hfirst ih =>
      obtain ⟨⟨before, after⟩, hsplit, hsame⟩ := Option.map_eq_some_iff.mp h
      obtain ⟨rfl, rfl⟩ := Prod.mk.inj hsame
      obtain ⟨hnew, rfl⟩ := ih hsplit
      exact ⟨by simp [hnew, Ne.symm hfirst], rfl⟩

theorem parseLibrarySpec_append {name path : String} (hname : name ≠ "")
    (hequals : '=' ∉ name.toList) (hpath : path ≠ "") :
    parseLibrarySpec (name ++ "=" ++ path) = .ok (name, path) := by
  have hspec : (name ++ "=" ++ path).toList = name.toList ++ '=' :: path.toList := by simp
  obtain ⟨first, before, hfirst⟩ : ∃ first before, name.toList = first :: before :=
    List.exists_cons_of_ne_nil (by simpa using hname)
  obtain ⟨second, after, hsecond⟩ : ∃ second after, path.toList = second :: after :=
    List.exists_cons_of_ne_nil (by simpa using hpath)
  rw [parseLibrarySpec, hspec, splitAtEquals?_append hequals, hfirst, hsecond]
  dsimp only
  rw [← hfirst, ← hsecond, String.ofList_toList, String.ofList_toList]

theorem parseLibrarySpec_eq_ok_iff {spec name path : String} :
    parseLibrarySpec spec = .ok (name, path) ↔
      name ≠ "" ∧ '=' ∉ name.toList ∧ path ≠ "" ∧ spec = name ++ "=" ++ path := by
  constructor
  · intro h
    unfold parseLibrarySpec at h
    split at h
    next first before second after hsplit =>
      obtain ⟨hequals, hspec⟩ := eq_append_of_splitAtEquals? hsplit
      obtain ⟨rfl, rfl⟩ := Prod.mk.inj (Except.ok.inj h)
      refine ⟨by simp, by simpa using hequals, by simp, ?_⟩
      rw [← String.toList_inj, hspec]
      simp
    next => cases h
  · rintro ⟨hname, hequals, hpath, rfl⟩
    exact parseLibrarySpec_append hname hequals hpath

theorem parseLibrarySpec_eq_error {spec : String} {error : LoadError}
    (h : parseLibrarySpec spec = .error error) : error = .badLibrarySpec spec := by
  unfold parseLibrarySpec at h
  split at h
  · cases h
  · cases h
    rfl

/-! ## Targets beside a manifest -/

namespace PathText

theorem join_ne_empty {folder target : String} (h : target ≠ "") : join folder target ≠ "" := by
  rw [join]
  split
  · exact h
  split <;> simp [h]

theorem join_of_isAbsolute {folder target : String} (h : isAbsolute target = true) :
    join folder target = target := by
  simp [join, h]

structure Plain (segment : String) : Prop where
  ne_empty : segment ≠ ""
  ne_dot : segment ≠ "."
  noSlash : '/' ∉ segment.toList

private theorem Plain.not_isFiller {segment : String} (h : Plain segment) :
    isFiller segment = false := by
  simp [isFiller, h.ne_empty, h.ne_dot]

theorem pieces_joined {segments : List String} (hne : segments ≠ [])
    (h : ∀ segment ∈ segments, Plain segment) :
    Text.pieces '/' (Text.joined "/" segments) = segments := by
  have hslash : ("/" : String).toList = ['/'] := rfl
  fun_induction Text.joined "/" segments with
  | case1 => exact absurd rfl hne
  | case2 segment =>
      obtain ⟨hsegment, -⟩ := List.forall_mem_cons.mp h
      rw [Text.pieces, Text.piecesOf_of_notMem hsegment.noSlash, List.map_singleton,
        String.ofList_toList]
  | case3 segment segments hmore ih =>
      obtain ⟨hsegment, hsegments⟩ := List.forall_mem_cons.mp h
      have hrest := ih (by simpa using hmore) hsegments
      rw [Text.pieces] at hrest
      rw [Text.pieces, String.toList_append, String.toList_append, hslash, List.append_assoc,
        List.singleton_append, Text.piecesOf_append, List.map_append, hrest,
        Text.piecesOf_of_notMem hsegment.noSlash, List.map_singleton, String.ofList_toList]
      rfl

private theorem withoutTrailing_of_plain {segments : List String}
    (h : ∀ segment ∈ segments, Plain segment) :
    withoutTrailing isFiller segments = segments := by
  rw [withoutTrailing]
  cases hlast : segments.reverse with
  | nil => simpa using hlast.symm
  | cons last before =>
      have hplain : Plain last := h last (List.mem_reverse.mp (hlast ▸ List.mem_cons_self))
      rw [List.dropWhile_cons_of_neg (by simp [hplain.not_isFiller]), ← hlast, List.reverse_reverse]

private theorem ofText_joined {segments : List String} (hne : segments ≠ [])
    (h : ∀ segment ∈ segments, Plain segment) :
    ofText (Text.joined "/" segments) = ⟨.relative, segments⟩ := by
  rw [ofText, pieces_joined hne h]
  split
  next => exact absurd rfl (h "" List.mem_cons_self).ne_empty
  next => exact absurd rfl (h "" List.mem_cons_self).ne_empty
  next => exact absurd rfl (h "." List.mem_cons_self).ne_dot
  next => rfl

private theorem ofText_slash_joined {segments : List String} (hne : segments ≠ [])
    (h : ∀ segment ∈ segments, Plain segment) :
    ofText ("/" ++ Text.joined "/" segments) = ⟨.root, segments⟩ := by
  have hpieces : Text.pieces '/' ("/" ++ Text.joined "/" segments) = "" :: segments := by
    conv_rhs => rw [← pieces_joined hne h]
    rw [Text.pieces, String.toList_append]
    rfl
  rw [ofText, hpieces]
  split
  next hempty => exact absurd (List.cons.inj hempty).2 hne
  next hsegments =>
    obtain ⟨-, rfl⟩ := List.cons.inj hsegments
    rfl
  next hsegments => exact absurd (List.cons.inj hsegments).1 (by decide)
  next hroot _ => exact absurd rfl (hroot segments)

inductive Opening : String → Prop
  | relative : Opening ""
  | root : Opening "/"

theorem joined_append_singleton {segments : List String} (hne : segments ≠ []) (last : String) :
    Text.joined "/" (segments ++ [last]) = Text.joined "/" segments ++ "/" ++ last := by
  fun_induction Text.joined "/" segments with
  | case1 => exact absurd rfl hne
  | case2 segment => rfl
  | case3 segment segments hmore ih =>
      have hmore' : segments ≠ [] := by simpa using hmore
      rw [List.cons_append, Text.joined, ih hmore']
      · simp only [String.append_assoc]
      · simp

private theorem joined_ends {segments : List String} (hne : segments ≠ [])
    (h : ∀ segment ∈ segments, Plain segment) :
    ∃ front last, (Text.joined "/" segments).toList = front ++ [last] ∧ last ≠ '/' := by
  obtain rfl | ⟨before, segment, rfl⟩ := segments.eq_nil_or_concat
  · exact absurd rfl hne
  have hsegment : Plain segment := h segment (by simp)
  obtain hempty | ⟨letters, last, hletters⟩ := segment.toList.eq_nil_or_concat
  · exact absurd (by simpa using hempty) hsegment.ne_empty
  have hlast : last ≠ '/' := fun heq => hsegment.noSlash (by simp [hletters, heq])
  by_cases hbefore : before = []
  · subst hbefore
    exact ⟨letters, last, hletters.trans List.concat_eq_append, hlast⟩
  · refine ⟨(Text.joined "/" before ++ "/").toList ++ letters, last, ?_, hlast⟩
    rw [List.concat_eq_append, joined_append_singleton hbefore, String.toList_append, hletters,
      List.concat_eq_append, List.append_assoc]

/-- The folder of a path is the path without its name. -/
private theorem folderOf_joined {opening name : String} {segments : List String}
    (hopening : Opening opening) (h : ∀ segment ∈ segments ++ [name], Plain segment) :
    folderOf (opening ++ Text.joined "/" (segments ++ [name])) =
      opening ++ Text.joined "/" segments := by
  have hne : segments ++ [name] ≠ [] := by simp
  have hplain : withoutTrailing isFiller (segments ++ [name]) = segments ++ [name] :=
    withoutTrailing_of_plain h
  have hfront : withoutTrailing isFiller segments = segments :=
    withoutTrailing_of_plain fun segment hmem => h segment (List.mem_append_left _ hmem)
  have hparent (start : PathStart) :
      parent? ⟨start, segments ++ [name]⟩ = some ⟨start, segments⟩ := by
    rw [parent?]
    dsimp only
    rw [hplain]
    split
    next hempty => exact absurd hempty hne
    next => rw [List.dropLast_concat, hfront]
  cases hopening with
  | relative =>
      rw [String.empty_append, String.empty_append, folderOf, ofText_joined hne h, hparent]
      rfl
  | root =>
      rw [folderOf, ofText_slash_joined hne h, hparent]
      rfl

/-- A relative target lies beside the manifest. -/
theorem join_folderOf_joined {opening name target : String} {segments : List String}
    (hopening : Opening opening) (h : ∀ segment ∈ segments ++ [name], Plain segment)
    (htarget : isAbsolute target = false) :
    join (folderOf (opening ++ Text.joined "/" (segments ++ [name]))) target =
      opening ++ Text.joined "/" (segments ++ [target]) := by
  rw [folderOf_joined hopening h]
  by_cases hne : segments = []
  · subst hne
    cases hopening <;> simp [join, htarget, Text.joined]
  · have hsegments : ∀ segment ∈ segments, Plain segment :=
      fun segment hmem => h segment (List.mem_append_left _ hmem)
    obtain ⟨front, last, hjoined, hlast⟩ := joined_ends hne hsegments
    have hend : (opening ++ Text.joined "/" segments).toList.getLast? = some last := by
      simp [hjoined]
    have hempty : opening ++ Text.joined "/" segments ≠ "" := fun heq => by simp [heq] at hend
    have hslash : (opening ++ Text.joined "/" segments).toList.getLast? ≠ some '/' := by
      rw [hend]
      simpa using hlast
    rw [join, if_neg (by simp [htarget, hempty]), if_neg hslash, joined_append_singleton hne]
    simp only [String.append_assoc]

end PathText

/-! ## Manifests and specs -/

namespace CommandLine

/-- The targets in a manifest file, those of repeated names included.  Without a file there are
none. -/
inductive ManifestHolds (files : FileTree) : Option String → Entries String → Prop
  | none : ManifestHolds files none []
  | file {path text : String} {written : Entries String} {rest : List Char}
      (hread : files.read path = .ok text)
      (hobject : ObjectAt TargetAt text.toList (withTargets written) rest) :
      ManifestHolds files (some path) written

def resolved (manifest : Option String) (target : String) : String :=
  if PathText.isAbsolute target then target
  else PathText.join ((manifest.map folderOf).getD "") target

def resolvedAll (manifest : Option String) (written : Entries String) : Entries String :=
  written.map fun entry => (entry.1, resolved manifest entry.2)

section

variable {files : FileTree} {settings : CheckSettings} {manifest : Option String}
  {base written specs : Entries String}

theorem resolved_some (path : String) :
    resolved (some path) = PathText.join (folderOf path) := by
  funext target
  rw [resolved]
  split
  next habsolute => exact (PathText.join_of_isAbsolute habsolute).symm
  next => rfl

theorem loadManifest_of_holds {path : String} (h : ManifestHolds files (some path) written) :
    loadManifest files path = .ok (resolvedAll (some path) written).merge := by
  cases h with
  | file hread hobject =>
      rw [loadManifest_withTargets hread hobject, resolvedAll, Entries.merge,
        Entries.merge, resolved_some]
      exact congrArg Except.ok (Entries.putAll_map_snd _ [] written).symm

theorem baseManifest_of_holds (h : ManifestHolds files manifest written) :
    baseManifest files manifest = .ok (resolvedAll manifest written).merge := by
  cases manifest with
  | none =>
      cases h
      rfl
  | some path =>
      rw [baseManifest, loadManifest_of_holds h]
      rfl

private theorem exists_holds_of_baseManifest (h : baseManifest files manifest = .ok base) :
    ∃ written, ManifestHolds files manifest written := by
  cases manifest with
  | none => exact ⟨[], .none⟩
  | some path =>
      cases hload : loadManifest files path with
      | error error => simp [baseManifest, hload, Stage.ofLoaded] at h
      | ok base =>
          rw [loadManifest] at hload
          split at hload
          next => cases hload
          next targets hshape =>
            obtain ⟨text, rest, hread, hleaves⟩ := loadShape_eq_ok_iff.mp hshape
            obtain ⟨written, hobject, -⟩ := Json.Shape.objectAt_of_read_map hleaves
            refine ⟨written, .file hread (ObjectAt.map (fun _ _ _ htarget => ?_) hobject)⟩
            obtain ⟨spelled, hquote, hspelled⟩ := Json.leaves_text_iff.mp htarget
            exact .string hquote hspelled

theorem fullManifest_eq_ok_iff {full : Manifest} :
    fullManifest files settings = .ok full ↔
      ∃ written specs, ManifestHolds files settings.manifest written ∧
        List.Forall₂ (fun spec entry => parseLibrarySpec spec = .ok entry)
          settings.librarySpecs specs ∧
        full = (resolvedAll settings.manifest written ++ specs).merge := by
  have hspecs {written : Entries String} (hholds : ManifestHolds files settings.manifest written) :
      fullManifest files settings = .ok full ↔
        ∃ specs, List.Forall₂ (fun spec entry => parseLibrarySpec spec = .ok entry)
          settings.librarySpecs specs ∧
        full = (resolvedAll settings.manifest written ++ specs).merge := by
    rw [fullManifest_of_ok (baseManifest_of_holds hholds), addSpecs_eq_mapM]
    simp only [← mapM_eq_ok_iff]
    cases settings.librarySpecs.mapM parseLibrarySpec with
    | error error => simp [Except.map, Stage.ofLoaded]
    | ok specs => simp [Except.map, Stage.ofLoaded, Entries.putAll_merge, eq_comm]
  constructor
  · intro h
    cases hbase : baseManifest files settings.manifest with
    | error messages => simp [fullManifest, hbase] at h
    | ok base =>
        obtain ⟨written, hholds⟩ := exists_holds_of_baseManifest hbase
        obtain ⟨specs, hparsed, rfl⟩ := (hspecs hholds).mp h
        exact ⟨written, specs, hholds, hparsed, rfl⟩
  · rintro ⟨written, specs, hholds, hparsed, rfl⟩
    exact (hspecs hholds).mpr ⟨specs, hparsed, rfl⟩

theorem find?_merge_resolved (name : String) :
    Entries.find? (resolvedAll manifest written ++ specs).merge name =
      (Entries.find? specs.reverse name).or
        ((Entries.find? written.reverse name).map (resolved manifest)) := by
  rw [Entries.find?_merge, List.reverse_append, resolvedAll, ← List.map_reverse,
    ← Entries.find?_map_snd]
  exact List.lookup_append

theorem names_merge_resolved :
    Entries.names (resolvedAll manifest written ++ specs).merge =
      (Entries.names written ++ Entries.names specs).eraseDups := by
  rw [Entries.names_merge, Entries.names, List.map_append, ← Entries.names, ← Entries.names,
    resolvedAll, Entries.names_map_snd]

/-! ## One route for the other -/

def specOf (entry : String × String) : String :=
  entry.1 ++ "=" ++ entry.2

/-- Entries that can be given as specs. -/
def Speakable (entries : Entries String) : Prop :=
  ∀ entry ∈ entries, entry.1 ≠ "" ∧ '=' ∉ entry.1.toList ∧ entry.2 ≠ ""

instance (entries : Entries String) : Decidable (Speakable entries) :=
  inferInstanceAs
    (Decidable (∀ entry ∈ entries, entry.1 ≠ "" ∧ '=' ∉ entry.1.toList ∧ entry.2 ≠ ""))

private theorem addSpecs_specOf {entries : Entries String} (h : Speakable entries) (full : Manifest)
    (more : List String) :
    addSpecs full (entries.map specOf ++ more) = addSpecs (full.putAll entries) more := by
  induction entries generalizing full with
  | nil => rfl
  | cons entry entries ih =>
      obtain ⟨⟨hname, hequals, hpath⟩, hentries⟩ := List.forall_mem_cons.mp h
      rw [List.map_cons, List.cons_append, addSpecs, specOf,
        parseLibrarySpec_append hname hequals hpath]
      exact ih hentries (full.put entry.1 entry.2)

def bySpecs (settings : CheckSettings) (entries : Entries String) : CheckSettings :=
  { settings with manifest := none, librarySpecs := entries.map specOf ++ settings.librarySpecs }

theorem fullManifest_bySpecs {entries : Entries String} (h : Speakable entries)
    (hbase : baseManifest files settings.manifest = .ok entries.merge) :
    fullManifest files (bySpecs settings entries) = fullManifest files settings := by
  rw [fullManifest_of_ok hbase, fullManifest]
  simp only [bySpecs, baseManifest]
  rw [addSpecs_specOf h]
  rfl

private theorem checkFiles_bySpecs (entries : Entries String) (libraries : Libraries)
    (paths : List String) :
    checkFiles files (bySpecs settings entries) libraries paths =
      checkFiles files settings libraries paths := by
  induction paths with
  | nil => rfl
  | cons path paths ih =>
      have hfile : checkFile files (bySpecs settings entries) libraries path =
          checkFile files settings libraries path := rfl
      rw [checkFiles, checkFiles, ih, hfile]

theorem runCheck_bySpecs {entries : Entries String} (h : Speakable entries)
    (hbase : baseManifest files settings.manifest = .ok entries.merge) (coloured : Bool) :
    runCheck files coloured (bySpecs settings entries) = runCheck files coloured settings := by
  have hreports : reportsOf files (bySpecs settings entries) = reportsOf files settings := by
    have hinputs : (bySpecs settings entries).inputs = settings.inputs := rfl
    rw [reportsOf, reportsOf, fullManifest_bySpecs h hbase, hinputs]
    simp only [checkFiles_bySpecs]
  rw [runCheck, runCheck, hreports]
  rfl

theorem Speakable.resolvedAll (h : Speakable written) :
    Speakable (resolvedAll manifest written) := by
  intro entry hentry
  obtain ⟨⟨name, target⟩, hmem, rfl⟩ := List.mem_map.mp hentry
  obtain ⟨hname, hequals, htarget⟩ := h _ hmem
  refine ⟨hname, hequals, ?_⟩
  dsimp only
  rw [resolved]
  split
  · exact htarget
  · exact PathText.join_ne_empty htarget

private theorem speakable_merge {entries : Entries String} (h : Speakable entries) :
    Speakable entries.merge :=
  fun entry hentry => h entry (Entries.mem_of_mem_merge hentry)

/-- The entries of a manifest, merged or as they are written, are what the manifest comes to. -/
private theorem merge_of_entries {path : String} {entries : Entries String}
    (hholds : ManifestHolds files (some path) written) (hwritten : Speakable written)
    (hentries : loadManifest files path = .ok entries ∨
      entries = CommandLine.resolvedAll (some path) written) :
    Speakable entries ∧ baseManifest files (some path) = .ok entries.merge := by
  rw [baseManifest_of_holds hholds]
  rcases hentries with hload | rfl
  · obtain rfl := Except.ok.inj (hload.symm.trans (loadManifest_of_holds hholds))
    refine ⟨speakable_merge hwritten.resolvedAll, ?_⟩
    rw [Entries.merge_of_nodup (Entries.nodup_merge _)]
  · exact ⟨hwritten.resolvedAll, rfl⟩

end

/-- A manifest and specs make one list of libraries, in which a manifest counts as much as the
specs of its entries. -/
theorem manifest_stands_for_specs (files : FileTree) :
    (∀ spec name path, parseLibrarySpec spec = .ok (name, path) ↔
      name ≠ "" ∧ '=' ∉ name.toList ∧ path ≠ "" ∧ spec = name ++ "=" ++ path) ∧
    (∀ spec error, parseLibrarySpec spec = .error error → error = .badLibrarySpec spec) ∧
    (∀ settings full, fullManifest files settings = .ok full →
      ∃ written specs, ManifestHolds files settings.manifest written ∧
        List.Forall₂ (fun spec entry => parseLibrarySpec spec = .ok entry)
          settings.librarySpecs specs) ∧
    (∀ settings written specs, ManifestHolds files settings.manifest written →
      List.Forall₂ (fun spec entry => parseLibrarySpec spec = .ok entry)
        settings.librarySpecs specs →
      ∃ full, fullManifest files settings = .ok full ∧
        Entries.names full = (Entries.names written ++ Entries.names specs).eraseDups ∧
        (Entries.names full).Nodup ∧
        ∀ name, Entries.find? full name = (Entries.find? specs.reverse name).or
          ((Entries.find? written.reverse name).map (resolved settings.manifest))) ∧
    (∀ opening segments name target, PathText.Opening opening →
      (∀ segment ∈ segments ++ [name], PathText.Plain segment) →
      PathText.isAbsolute target = false →
      resolved (some (opening ++ Text.joined "/" (segments ++ [name]))) target =
        opening ++ Text.joined "/" (segments ++ [target])) ∧
    ∀ settings path written entries, settings.manifest = some path →
      ManifestHolds files (some path) written → Speakable written →
      (loadManifest files path = .ok entries ∨ entries = resolvedAll (some path) written) →
      fullManifest files (bySpecs settings entries) = fullManifest files settings ∧
      fullManifest files (bySpecs settings entries) >>= librariesOf files =
        fullManifest files settings >>= librariesOf files ∧
      ∀ coloured, runCheck files coloured (bySpecs settings entries) =
        runCheck files coloured settings := by
  refine ⟨fun _ _ _ => parseLibrarySpec_eq_ok_iff, fun _ _ => parseLibrarySpec_eq_error, ?_, ?_,
    ?_, ?_⟩
  · intro settings full h
    obtain ⟨written, specs, hholds, hspecs, -⟩ := fullManifest_eq_ok_iff.mp h
    exact ⟨written, specs, hholds, hspecs⟩
  · intro settings written specs hholds hspecs
    exact ⟨_, fullManifest_eq_ok_iff.mpr ⟨written, specs, hholds, hspecs, rfl⟩,
      names_merge_resolved, Entries.nodup_merge _, find?_merge_resolved⟩
  · intro opening segments name target hopening hplain htarget
    rw [resolved_some]
    exact PathText.join_folderOf_joined hopening hplain htarget
  · intro settings path written entries hpath hholds hwritten hentries
    obtain ⟨hspeakable, hbase⟩ := merge_of_entries hholds hwritten hentries
    rw [← hpath] at hbase
    have hfull := fullManifest_bySpecs hspeakable hbase
    exact ⟨hfull, by rw [hfull], runCheck_bySpecs hspeakable hbase⟩

def twiceNamed : FileTree :=
  ⟨[(["m"], .folder),
    (["m", "libs"], .file "\x7b\"b\":\"/x\",\"a\":\"a=1\",\"b\":\"b\"\x7d".toUTF8)]⟩

def twiceNamedTargets : Entries String :=
  [("b", "/x"), ("a", "a=1"), ("b", "b")]

def twiceNamedSettings : CheckSettings where
  jsonPointer := none
  inputs := ["p.json"]
  librarySpecs := ["c=x=y", "a=z"]
  manifest := some "m/libs"
  checkLibraries := false
  maxDepth := 256
  format := .text
  out := none
  noOp := false

theorem twiceNamed_libraries :
    parseLibrarySpec "=z" = .error (.badLibrarySpec "=z") ∧
    ManifestHolds twiceNamed (some "m/libs") twiceNamedTargets ∧
    List.Forall₂ (fun spec entry => parseLibrarySpec spec = .ok entry)
      twiceNamedSettings.librarySpecs [("c", "x=y"), ("a", "z")] ∧
    (∃ full, fullManifest twiceNamed twiceNamedSettings = .ok full ∧
      (∃ written specs, ManifestHolds twiceNamed twiceNamedSettings.manifest written ∧
        List.Forall₂ (fun spec entry => parseLibrarySpec spec = .ok entry)
          twiceNamedSettings.librarySpecs specs) ∧
      Entries.names full = ["b", "a", "c"] ∧ Entries.find? full "b" = some "m/b" ∧
      Entries.find? full "a" = some "z" ∧ Entries.find? full "c" = some "x=y") ∧
    (∀ segment ∈ ["m"] ++ ["libs"], PathText.Plain segment) ∧
    PathText.isAbsolute "b" = false ∧
    resolved (some ("/" ++ Text.joined "/" (["m"] ++ ["libs"]))) "b" =
      "/" ++ Text.joined "/" (["m"] ++ ["b"]) ∧
    Speakable twiceNamedTargets ∧
    ∀ coloured, runCheck twiceNamed coloured
        (bySpecs twiceNamedSettings [("b", "/x"), ("a", "m/a=1"), ("b", "m/b")]) =
      runCheck twiceNamed coloured twiceNamedSettings := by
  obtain ⟨hparses, hrefuses, hparts, hwhole, hbeside, hroutes⟩ :=
    manifest_stands_for_specs twiceNamed
  have hread : twiceNamed.read "m/libs" =
      .ok "\x7b\"b\":\"/x\",\"a\":\"a=1\",\"b\":\"b\"\x7d" := rfl
  have hwritten : Json.parseWritten 1 "\x7b\"b\":\"/x\",\"a\":\"a=1\",\"b\":\"b\"\x7d" =
      .ok (.object [("b", .string "/x"), ("a", .string "a=1"), ("b", .string "b")]) := by
    decide +kernel
  have hholds : ManifestHolds twiceNamed (some "m/libs") twiceNamedTargets := by
    obtain ⟨rest, -, hobject⟩ := Json.objectAt_targets_of_parseWritten hwritten
    exact .file hread hobject
  have hspecs : List.Forall₂ (fun spec entry => parseLibrarySpec spec = .ok entry)
      twiceNamedSettings.librarySpecs [("c", "x=y"), ("a", "z")] :=
    .cons ((hparses _ _ _).mpr (by decide)) (.cons ((hparses _ _ _).mpr (by decide)) .nil)
  have hplain : ∀ segment ∈ ["m"] ++ ["libs"], PathText.Plain segment := by
    simp only [List.cons_append, List.nil_append, List.forall_mem_cons]
    exact ⟨⟨by decide, by decide, by decide⟩, ⟨by decide, by decide, by decide⟩,
      List.forall_mem_nil _⟩
  have hspeakable : Speakable twiceNamedTargets := by decide
  obtain ⟨full, hfull, hnames, -, hfind⟩ := hwhole _ _ _ hholds hspecs
  have hresolved : [("b", "/x"), ("a", "m/a=1"), ("b", "m/b")] =
      resolvedAll (some "m/libs") twiceNamedTargets := rfl
  obtain ⟨error, herror⟩ : ∃ error, parseLibrarySpec "=z" = .error error := ⟨_, rfl⟩
  refine ⟨herror.trans (congrArg _ (hrefuses _ _ herror)), hholds, hspecs,
    ⟨full, hfull, hparts _ _ hfull, ?_, ?_, ?_, ?_⟩, hplain, by decide,
    hbeside "/" ["m"] "libs" "b" .root hplain (by decide), hspeakable, ?_⟩
  · rw [hnames]
    decide
  · rw [hfind]
    rfl
  · rw [hfind]
    rfl
  · rw [hfind]
    rfl
  · exact (hroutes twiceNamedSettings _ _ _ rfl hholds hspeakable (.inr hresolved)).2.2

end CommandLine

end TreeSyntax
