import TreeSyntax.Proofs.Delimited
import TreeSyntax.Proofs.Fixture
import TreeSyntax.Proofs.Manifest

/-!
# Documents in files

A program has to fill its file: whatever follows the value is refused.  A manifest and a fixture
are taken off the front of their files, and what follows is not looked at.
-/

namespace TreeSyntax

namespace Json

/-! ## Shapes take whole values -/

def Shape.TakesValues {α : Type} (shape : Shape α) : Prop :=
  ∀ text value rest, Leaves (shape.read text) value rest → Passes text rest

namespace Shape

variable {α β : Type} {shape : Shape α}

theorem takesValues_any (nesting : Nat) : (any nesting).TakesValues := by
  intro text value rest h
  obtain ⟨written, hwritten, -⟩ := Leaves.map_iff.mp h
  exact passes_of_readValue hwritten

theorem takesValues_scalar (name : String) (ofValue : Json → Except Mismatch α) :
    (scalar name ofValue).TakesValues := by
  intro text accepted rest h
  obtain ⟨first, later, value, hfirst, hopen, hread, -⟩ := leaves_read_scalar_iff.mp h
  exact passes_scalar hfirst hopen hread

theorem TakesValues.refine (h : shape.TakesValues) (check : α → Except Mismatch β) :
    (shape.refine check).TakesValues := by
  intro text checked rest hread
  obtain ⟨value, hvalue, -⟩ := leaves_read_refine_iff.mp hread
  exact h text value rest hvalue

theorem TakesValues.orNull (h : shape.TakesValues) : shape.orNull.TakesValues := by
  intro text value rest hread
  rcases leaves_read_orNull_iff.mp hread with
    ⟨later, absent, hfirst, hscalar, -⟩ | ⟨-, accepted, haccepted, -⟩
  · exact passes_scalar hfirst rfl hscalar
  · exact h text accepted rest haccepted

theorem TakesValues.list (h : shape.TakesValues) : shape.list.TakesValues := by
  intro text values rest hread
  obtain ⟨inner, hopen, hitems⟩ := leaves_read_list_iff.mp hread
  have hlist : ArrayAt shape.read.Takes text values rest :=
    ⟨inner, hopen, itemsIn_of_readItems hitems⟩
  exact passes_array (hlist.mono h)

theorem TakesValues.map (h : shape.TakesValues) : shape.map.TakesValues := by
  intro text entries rest hread
  obtain ⟨written, hwritten, -⟩ := objectAt_of_read_map hread
  exact passes_object (hwritten.mono h)

end Shape

namespace RecordShape

variable {σ α : Type} {record : RecordShape σ α} {text rest : List Char}

variable (hfields : ∀ field ∈ record.fields, field.shape.TakesValues)

include hfields

private theorem exists_passes_of_readMember {state next : σ} {key : String}
    (h : Leaves (record.readMember state key text) next rest) :
    ∃ later, skipBlanks text = ':' :: later ∧ Passes later rest := by
  rw [readMember] at h
  cases hfield : record.field? key with
  | some field =>
      simp only [hfield] at h
      split at h
      next => exact (Leaves.not_error h).elim
      next =>
        obtain ⟨value, hvalue, -⟩ := Leaves.map_iff.mp h
        obtain ⟨later, hcolon, hread⟩ := leaves_afterColon_iff.mp hvalue
        exact ⟨later, hcolon, hfields field (mem_fields_of_field? hfield).1 later value rest hread⟩
  | none =>
      simp only [hfield] at h
      split at h
      next =>
        obtain ⟨_, hskip, -⟩ := Leaves.map_iff.mp h
        obtain ⟨later, hcolon, hpassed⟩ := leaves_afterColon_iff.mp hskip
        exact ⟨later, hcolon, passes_of_skipValue hpassed⟩
      next => exact (Leaves.not_error h).elim

omit hfields in
private theorem exists_itemsIn_of_readFields {fields : List (Field σ)}
    (hfields : ∀ field ∈ fields, field.shape.TakesValues) {state : σ} {index : Nat}
    {final : σ × Bool} (h : Leaves (readFields fields state index text) final rest) :
    ∃ states : List σ, ItemsIn PassesAs (index == 0) text states rest := by
  induction fields generalizing state index text with
  | nil =>
      obtain ⟨hclosed, -⟩ := leaves_readFields_nil_iff.mp h
      exact ⟨[], .closed hclosed⟩
  | cons field fields ih =>
      obtain ⟨hfield, hfields⟩ := List.forall_mem_cons.mp hfields
      rcases leaves_readFields_cons_iff.mp h with
        ⟨hclosed, -⟩ | ⟨opening, value, later, hstart, hopen, hread, hmore⟩
      · exact ⟨[], .closed hclosed⟩
      · obtain ⟨states, hstates⟩ := ih hfields hmore
        exact ⟨field.fill value state :: states,
          .item hstart hopen (hfield _ _ _ hread) hstates⟩

theorem takesValues : record.shape.TakesValues := by
  intro text value rest h
  rcases leaves_read_iff.mp h with ⟨inner, state, hopen, hread, -⟩ | ⟨inner, state, hopen, hread, -⟩
  · obtain ⟨states, hstates⟩ := exists_itemsIn_of_readFields hfields hread
    exact passes_array ⟨inner, hopen, hstates⟩
  · obtain ⟨members, hmembers, -⟩ := exists_membersIn (β := σ) PassesAs (fun _ member => member.2)
      (fun _ _ _ next _ h => by
        obtain ⟨later, hcolon, hpasses⟩ := exists_passes_of_readMember hfields h
        exact ⟨later, next, hcolon, hpasses, rfl⟩) hread
    exact passes_object ⟨inner, hopen, hmembers⟩

end RecordShape

/-! ## Shapes look no further -/

namespace Shape

variable {α β : Type} {shape : Shape α}

theorem isDelimited_read_any (nesting : Nat) : (any nesting).read.IsDelimited :=
  (isDelimited_readValue nesting).map merged

theorem isDelimited_read_scalar (name : String) (ofValue : Json → Except Mismatch α) :
    (scalar name ofValue).read.IsDelimited := by
  intro text accepted rest h
  obtain ⟨first, later, value, hfirst, hopen, hread, hvalue⟩ := leaves_read_scalar_iff.mp h
  refine Reader.exists_endsAt_of_first hfirst (delimited_readScalar hread) ?_
  exact fun text later rest hfirst hread =>
    leaves_read_scalar_iff.mpr ⟨first, later, value, hfirst, hopen, hread, hvalue⟩

theorem isDelimited_read_refine (h : shape.read.IsDelimited) (check : α → Except Mismatch β) :
    (shape.refine check).read.IsDelimited := by
  intro text checked rest hread
  obtain ⟨value, hvalue, hchecked⟩ := leaves_read_refine_iff.mp hread
  obtain ⟨first, hdelimited⟩ := h text value rest hvalue
  exact ⟨first, hdelimited.mono fun _ _ h =>
    ⟨h.1, leaves_read_refine_iff.mpr ⟨value, h.2, hchecked⟩⟩⟩

theorem isDelimited_read_orNull (h : shape.read.IsDelimited) : shape.orNull.read.IsDelimited := by
  intro text value rest hread
  rcases leaves_read_orNull_iff.mp hread with
    ⟨later, absent, hfirst, hscalar, rfl⟩ | ⟨hnull, accepted, haccepted, rfl⟩
  · refine Reader.exists_endsAt_of_first hfirst (delimited_readScalar hscalar) ?_
    exact fun text later rest hfirst hscalar =>
      leaves_read_orNull_iff.mpr (.inl ⟨later, absent, hfirst, hscalar, rfl⟩)
  · obtain ⟨first, hdelimited⟩ := h text accepted rest haccepted
    obtain ⟨later, hfirst⟩ := hdelimited.holds.1
    refine ⟨first, hdelimited.mono ?_⟩
    rintro text rest ⟨⟨later', hfirst'⟩, haccepted⟩
    refine ⟨⟨later', hfirst'⟩,
      leaves_read_orNull_iff.mpr (.inr ⟨fun last hlast => ?_, _, haccepted, rfl⟩)⟩
    obtain rfl := (List.cons.inj (hfirst'.symm.trans hlast)).1
    exact hnull later hfirst

theorem isDelimited_read_list (h : shape.read.IsDelimited) : shape.list.read.IsDelimited := by
  intro text values rest hread
  obtain ⟨inner, hopen, hitems⟩ := leaves_read_list_iff.mp hread
  have hdelimited := (isSelfDelimited_readItems (fun read _ => h.map (· :: read)) [] 0).map
    List.reverse
  refine Reader.exists_endsAt_of_first hopen (hdelimited _ _ _ hitems).delimited ?_
  exact fun text inner rest hopen hitems => leaves_read_list_iff.mpr ⟨inner, hopen, hitems⟩

theorem isEnclosed_read_map (h : shape.read.IsDelimited) : shape.map.read.IsEnclosed := by
  intro text entries rest hread
  obtain ⟨inner, hopen, hmembers⟩ := leaves_read_map_iff.mp hread
  have hdelimited := isSelfDelimited_readMembers (fun (entries : Entries α) key =>
    (h.afterColon key).map (entries.put key)) [] true
  refine Reader.exists_endsAt_of_first hopen (hdelimited _ _ _ hmembers) ?_
  exact fun text inner rest hopen hmembers => leaves_read_map_iff.mpr ⟨inner, hopen, hmembers⟩

end Shape

namespace RecordShape

variable {σ α : Type} {record : RecordShape σ α}

private theorem isDelimited_readMember
    (hfields : ∀ field ∈ record.fields, field.shape.read.IsDelimited) (state : σ) (key : String) :
    (record.readMember state key).IsDelimited := by
  rw [readMember]
  cases hfield : record.field? key with
  | some field =>
      dsimp only
      split
      · exact Reader.isDelimited_refuse _
      · exact ((hfields field (mem_fields_of_field? hfield).1).afterColon key).map _
  | none =>
      dsimp only
      split
      · exact (isDelimited_skipValue.afterColon key).map _
      · exact Reader.isDelimited_refuse _

private theorem isSelfDelimited_readFields {fields : List (Field σ)}
    (hfields : ∀ field ∈ fields, field.shape.read.IsDelimited) (state : σ) (index : Nat) :
    (readFields fields state index).IsSelfDelimited := by
  induction fields generalizing state index with
  | nil =>
      intro text final rest h
      obtain ⟨hclosed, rfl⟩ := leaves_readFields_nil_iff.mp h
      exact (selfDelimited_skipBlanks hclosed).mono fun _ _ hclosed =>
        leaves_readFields_nil_iff.mpr ⟨hclosed, rfl⟩
  | cons field fields ih =>
      obtain ⟨hfield, hfields⟩ := List.forall_mem_cons.mp hfields
      intro text final rest h
      rcases leaves_readFields_cons_iff.mp h with
        ⟨hclosed, rfl⟩ |
          ⟨opening, value, later, hstart, ⟨first, inner, hfirst, hopen⟩, hread, hmore⟩
      · exact (selfDelimited_skipBlanks hclosed).mono fun _ _ hclosed =>
          leaves_readFields_cons_iff.mpr (.inl ⟨hclosed, rfl⟩)
      · obtain ⟨first', hdelimited⟩ := hfield opening value later hread
        obtain ⟨inner', hfirst'⟩ := hdelimited.holds.1
        obtain rfl := (List.cons.inj (hfirst.symm.trans hfirst')).1
        refine ((delimited_starts hstart).comp (hdelimited.comp
          (ih hfields (field.fill value state) (index + 1) later final rest hmore))).mono ?_
        rintro text rest ⟨opening, hstart, later, ⟨⟨inner, hfirst⟩, hread⟩, hmore⟩
        exact leaves_readFields_cons_iff.mpr
          (.inr ⟨opening, value, later, hstart, ⟨first, inner, hfirst, hopen⟩, hread, hmore⟩)

theorem isEnclosed_read (hfields : ∀ field ∈ record.fields, field.shape.read.IsDelimited) :
    record.read.IsEnclosed := by
  intro text value rest h
  rcases leaves_read_iff.mp h with
    ⟨inner, state, hopen, hread, hvalue⟩ | ⟨inner, state, hopen, hread, hvalue⟩
  · have hdelimited := isSelfDelimited_readFields hfields record.start 0
    refine Reader.exists_endsAt_of_first hopen (hdelimited _ _ _ hread) ?_
    exact fun text inner rest hopen hread =>
      leaves_read_iff.mpr (.inl ⟨inner, state, hopen, hread, hvalue⟩)
  · have hdelimited :=
      isSelfDelimited_readMembers (isDelimited_readMember hfields) record.start true
    refine Reader.exists_endsAt_of_first hopen (hdelimited _ _ _ hread) ?_
    exact fun text inner rest hopen hread =>
      leaves_read_iff.mpr (.inr ⟨inner, state, hopen, hread, hvalue⟩)

end RecordShape

end Json

/-! ## What the loaders take -/

open Json

theorem Outcome.takesValues : Outcome.shape.TakesValues := by
  refine RecordShape.takesValues ?_
  simp only [Outcome.record, List.forall_mem_cons]
  exact ⟨Shape.takesValues_scalar _ _, (Shape.takesValues_scalar _ _).refine _,
    (Shape.takesValues_scalar _ _).list, List.forall_mem_nil _⟩

theorem Fixture.takesValues : Fixture.shape.TakesValues := by
  refine RecordShape.takesValues ?_
  simp only [Fixture.record, List.forall_mem_cons]
  exact ⟨Shape.takesValues_scalar _ _, Shape.takesValues_any _,
    (Shape.takesValues_any _).map.orNull, Outcome.takesValues, List.forall_mem_nil _⟩

theorem takesValues_manifestShape : manifestShape.TakesValues :=
  (Shape.takesValues_scalar _ _).map

theorem Outcome.isEnclosed_read : Outcome.shape.read.IsEnclosed := by
  refine RecordShape.isEnclosed_read ?_
  simp only [Outcome.record, List.forall_mem_cons]
  exact ⟨Shape.isDelimited_read_scalar _ _,
    Shape.isDelimited_read_refine (Shape.isDelimited_read_scalar _ _) _,
    Shape.isDelimited_read_list (Shape.isDelimited_read_scalar _ _), List.forall_mem_nil _⟩

theorem Fixture.isEnclosed_read : Fixture.shape.read.IsEnclosed := by
  have hlibraries := Shape.isEnclosed_read_map (Shape.isDelimited_read_any (nestingLimit - 2))
  refine RecordShape.isEnclosed_read ?_
  simp only [Fixture.record, List.forall_mem_cons]
  exact ⟨Shape.isDelimited_read_scalar _ _, Shape.isDelimited_read_any _,
    Shape.isDelimited_read_orNull hlibraries.isDelimited, Outcome.isEnclosed_read.isDelimited,
    List.forall_mem_nil _⟩

theorem isEnclosed_read_manifestShape : manifestShape.read.IsEnclosed :=
  Shape.isEnclosed_read_map (Shape.isDelimited_read_scalar _ _)

/-- The whole text is one JSON value with blanks around it. -/
def IsDocument (text : String) : Prop :=
  readAll skipValue text.toList = .ok ()

theorem isDocument_iff {text : String} :
    IsDocument text ↔ ∃ rest, Leaves (skipValue text.toList) () rest ∧ skipBlanks rest = [] :=
  readAll_eq_ok_iff

private theorem isDocument_of_parse {text : String} {value : Json} (h : parse text = .ok value) :
    IsDocument text := by
  obtain ⟨written, hwritten, -⟩ := map_eq_ok_iff.mp h
  obtain ⟨rest, hread, hend⟩ := readAll_eq_ok_iff.mp hwritten
  exact isDocument_iff.mpr ⟨rest, (passes_of_readValue hread).skipValue, hend⟩

theorem isDocument_of_loadJson {files : FileTree} {path text : String} {value : Json}
    (hread : files.read path = .ok text) (h : loadJson files path = .ok value) :
    IsDocument text := by
  rw [loadJson, readFile_of_read hread] at h
  dsimp only at h
  split at h
  next value hparse => exact isDocument_of_parse hparse
  next => cases h

theorem isDocument_of_loadProgram {files : FileTree} {path text : String}
    {pointer : Option String} {value : Json} (hread : files.read path = .ok text)
    (h : loadProgram files path pointer = .ok value) : IsDocument text := by
  rw [loadProgram] at h
  split at h
  next => cases h
  next whole hwhole => exact isDocument_of_loadJson hread hwhole

/-- The text begins with one document, which alone decides what is loaded: whatever stands behind
it in a file, the result is the same. -/
def DecidedByDocument {α : Type} (load : FileTree → String → Loaded α) (path text : String)
    (value : α) : Prop :=
  ∃ document tail, text = document ++ tail ∧ ∀ other,
    (IsDocument (document ++ other) ↔ skipBlanks other.toList = []) ∧
    ∀ files : FileTree, files.read path = .ok (document ++ other) → load files path = .ok value

theorem DecidedByDocument.append {α : Type} {load : FileTree → String → Loaded α}
    {path text more : String} {value : α} (h : DecidedByDocument load path text value)
    {files : FileTree} (hread : files.read path = .ok (text ++ more)) :
    load files path = .ok value := by
  obtain ⟨document, tail, rfl, hdocument⟩ := h
  rw [String.append_assoc] at hread
  exact (hdocument (tail ++ more)).2 files hread

theorem decidedByDocument_loadShape {α : Type} {shape : Shape α} (hvalues : shape.TakesValues)
    (hdelimited : shape.read.IsSelfDelimited) {files : FileTree} {path text : String} {value : α}
    (hread : files.read path = .ok text) (h : loadShape shape files path = .ok value) :
    DecidedByDocument (loadShape shape) path text value := by
  obtain ⟨_, rest, hread', hleaves⟩ := loadShape_eq_ok_iff.mp h
  obtain rfl := Except.ok.inj (hread.symm.trans hread')
  obtain ⟨front, htext, -, hfront⟩ := hdelimited _ value rest hleaves
  have hdocument (other : String) :
      Leaves (shape.read (String.ofList front ++ other).toList) value other.toList := by
    rw [String.toList_append, String.toList_ofList]
    exact hfront other.toList nofun
  refine ⟨String.ofList front, String.ofList rest, ?_, fun other => ⟨?_, fun files hread => ?_⟩⟩
  · rw [← String.toList_inj, htext, String.toList_append, String.toList_ofList,
      String.toList_ofList]
  · have hskip := (hvalues _ _ _ (hdocument other)).skipValue
    rw [isDocument_iff]
    constructor
    · rintro ⟨rest, hrest, hend⟩
      rwa [(hskip.unique hrest).2]
    · exact fun hend => ⟨other.toList, hskip, hend⟩
  · exact loadShape_eq_ok_iff.mpr ⟨_, _, hread, hdocument other⟩

theorem decidedByDocument_loadManifest {files : FileTree} {path text : String}
    {manifest : Manifest} (hread : files.read path = .ok text)
    (h : loadManifest files path = .ok manifest) :
    DecidedByDocument loadManifest path text manifest := by
  rw [loadManifest] at h
  split at h
  next => cases h
  next targets hshape =>
    obtain ⟨document, tail, htext, hdocument⟩ := decidedByDocument_loadShape
      takesValues_manifestShape isEnclosed_read_manifestShape.isSelfDelimited hread hshape
    refine ⟨document, tail, htext, fun other => ⟨(hdocument other).1, fun files hread => ?_⟩⟩
    rw [loadManifest, (hdocument other).2 files hread]
    exact h

theorem decidedByDocument_loadFixture {files : FileTree} {path text : String}
    {fixture : Fixture} (hread : files.read path = .ok text)
    (h : loadFixture files path = .ok fixture) : DecidedByDocument loadFixture path text fixture :=
  decidedByDocument_loadShape Fixture.takesValues Fixture.isEnclosed_read.isSelfDelimited hread h

/-- Only a whole document is loaded as a program.  A manifest or a fixture is loaded from a document
at the front of its file, whatever stands behind it. -/
theorem programs_alone_fill_their_files (files : FileTree) (path text : String)
    (hread : files.read path = .ok text) :
    (∀ value, loadJson files path = .ok value → IsDocument text) ∧
    (∀ pointer value, loadProgram files path pointer = .ok value → IsDocument text) ∧
    (∀ manifest, loadManifest files path = .ok manifest →
      DecidedByDocument loadManifest path text manifest) ∧
    ∀ fixture, loadFixture files path = .ok fixture →
      DecidedByDocument loadFixture path text fixture :=
  ⟨fun _ => isDocument_of_loadJson hread, fun _ _ => isDocument_of_loadProgram hread,
    fun _ => decidedByDocument_loadManifest hread, fun _ => decidedByDocument_loadFixture hread⟩

def plainTexts : FileTree :=
  ⟨[(["m"], .file "\x7b\x7d".toUTF8),
    (["f"], .file "\x7b\"input\":0,\"expect\":[true,\"\",[]]\x7d".toUTF8)]⟩

def strayTexts : FileTree :=
  ⟨[(["m"], .file "\x7b\x7d x".toUTF8),
    (["f"], .file "\x7b\"input\":0,\"expect\":[true,\"\",[]]\x7d]".toUTF8)]⟩

def plainFixture : Fixture :=
  ⟨"", .number (.integer 0), none, ⟨true, none, []⟩⟩

theorem loadManifest_plainTexts : loadManifest plainTexts "m" = .ok [] := by decide +kernel

theorem loadFixture_plainTexts : loadFixture plainTexts "f" = .ok plainFixture := by
  refine Fixture.loadFixture_of_written (.number (.integer 0))
    [.bool true, .string "", .array []] rfl ?_ rfl
  decide +kernel

theorem plainTexts_decided :
    plainTexts.read "m" = .ok "\x7b\x7d" ∧ IsDocument "\x7b\x7d" ∧
    loadManifest strayTexts "m" = .ok [] ∧
    plainTexts.read "f" = .ok "\x7b\"input\":0,\"expect\":[true,\"\",[]]\x7d" ∧
    loadFixture strayTexts "f" = .ok plainFixture := by
  have hm : plainTexts.read "m" = .ok "\x7b\x7d" := rfl
  have hf : plainTexts.read "f" =
      .ok "\x7b\"input\":0,\"expect\":[true,\"\",[]]\x7d" := rfl
  have hprogram : loadProgram plainTexts "m" none = .ok (.object []) := by decide +kernel
  obtain ⟨-, hprograms, hmanifests, -⟩ := programs_alone_fill_their_files plainTexts _ _ hm
  obtain ⟨-, -, -, hfixtures⟩ := programs_alone_fill_their_files plainTexts _ _ hf
  have hm' : strayTexts.read "m" = .ok ("\x7b\x7d" ++ " x") := rfl
  have hf' : strayTexts.read "f" =
      .ok ("\x7b\"input\":0,\"expect\":[true,\"\",[]]\x7d" ++ "]") := rfl
  exact ⟨hm, hprograms none _ hprogram, (hmanifests _ loadManifest_plainTexts).append hm', hf,
    (hfixtures _ loadFixture_plainTexts).append hf'⟩

theorem strayTexts_accepted :
    (strayTexts.read "m" = .ok "\x7b\x7d x" ∧ loadManifest strayTexts "m" = .ok [] ∧
      ¬ IsDocument "\x7b\x7d x") ∧
    strayTexts.read "f" = .ok "\x7b\"input\":0,\"expect\":[true,\"\",[]]\x7d]" ∧
    loadFixture strayTexts "f" = .ok plainFixture ∧
    ¬ IsDocument "\x7b\"input\":0,\"expect\":[true,\"\",[]]\x7d]" := by
  have hm : strayTexts.read "m" = .ok ("\x7b\x7d" ++ " x") := rfl
  have hf : strayTexts.read "f" =
      .ok ("\x7b\"input\":0,\"expect\":[true,\"\",[]]\x7d" ++ "]") := rfl
  have hmanifest := (decidedByDocument_loadManifest rfl loadManifest_plainTexts).append hm
  have hfixture := (decidedByDocument_loadFixture rfl loadFixture_plainTexts).append hf
  refine ⟨⟨hm, hmanifest, fun hdocument => ?_⟩, hf, hfixture, fun hdocument => ?_⟩
  · have hread : readAll skipValue "\x7b\x7d x".toList =
        .error (.atNext .trailingCharacters ['x']) := by decide +kernel
    cases hdocument.symm.trans hread
  · have hread : readAll skipValue
        "\x7b\"input\":0,\"expect\":[true,\"\",[]]\x7d]".toList =
        .error (.atNext .trailingCharacters [']']) := by decide +kernel
    cases hdocument.symm.trans hread

end TreeSyntax
