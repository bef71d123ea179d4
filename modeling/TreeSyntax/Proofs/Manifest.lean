import TreeSyntax.Proofs.Streaming

/-!
# Manifests in files

A manifest is loaded exactly if the value of each of its members is a string, the values of
repeated names included.  Otherwise the first member whose value is none is to blame, whatever
comes after it.
-/

namespace TreeSyntax

namespace Json

/-! ## Faults of scalars -/

/-- A failure that is not in a part of what was to be read. -/
def Whole {α : Type} (result : Except Fault α) : Prop :=
  ∀ fault, result = .error fault → fault.steps = []

section

variable {α β : Type}

@[simp] theorem whole_ok (value : α) : Whole (.ok value) := nofun

@[simp] theorem whole_error_iff {fault : Fault} :
    Whole (.error fault : Except Fault α) ↔ fault.steps = [] := by
  simp [Whole]

@[simp] theorem steps_atNext (defect : Defect) (rest : List Char) :
    (Fault.atNext defect rest).steps = [] := rfl

@[simp] theorem steps_justBefore (defect : Defect) (rest : List Char) :
    (Fault.justBefore defect rest).steps = [] := rfl

@[simp] theorem steps_ofMismatch (mismatch : Mismatch) :
    (Fault.ofMismatch mismatch).steps = [] := rfl

@[simp] theorem steps_hexFault (text : List Char) : (hexFault text).steps = [] := by
  rw [hexFault]
  split <;> rfl

theorem Whole.carry {text later : List Char} {shorter : later.length ≤ text.length}
    {result : Except Fault (α × Rest later)} (h : Whole result) :
    Whole (Reader.carry shorter result) := by
  cases result with
  | ok read => exact whole_ok _
  | error fault => exact whole_error_iff.mpr (h fault rfl)

theorem Whole.map {reader : Reader α} {text : List Char} (h : Whole (reader text))
    (convert : α → β) : Whole ((reader.map convert) text) := by
  rw [Reader.map]
  split
  next => exact whole_ok _
  next fault hfault => exact whole_error_iff.mpr (h fault hfault)

end

theorem whole_readHex (text : List Char) : Whole (readHex text) := by
  unfold readHex
  split
  · split <;> simp
  · simp

private theorem whole_readLowSurrogate (high : Nat) (text : List Char) :
    Whole (readLowSurrogate high text) := by
  unfold readLowSurrogate
  split
  next rest =>
    split
    next fault hfault => simpa using whole_readHex rest fault hfault
    next => split <;> simp
  all_goals simp

private theorem whole_readEscape (text : List Char) : Whole (readEscape text) := by
  unfold readEscape
  split
  next => simp
  next rest =>
    apply Whole.carry
    rw [readUnicodeEscape]
    split
    next fault hfault => simpa using whole_readHex rest fault hfault
    next code later _ =>
      split
      · simp
      split
      · exact (whole_readLowSurrogate code later.1).carry
      · simp
  next => split <;> simp

theorem whole_readStringFrom (read text : List Char) : Whole (readStringFrom read text) := by
  fun_induction readStringFrom read text with
  | case1 => simp
  | case2 => simp
  | case3 read text fault hfault => simpa using whole_readEscape text fault hfault
  | case4 read text character later hescape ih => exact ih.carry
  | case5 => simp
  | case6 read first text hquote hbackslash hcontrol ih => exact ih.carry

theorem whole_floatOf (negative : Bool) (significand : Nat) (exponent : Int) (text : List Char)
    (rest : Rest text) : Whole (floatOf negative significand exponent text rest) := by
  rw [floatOf]
  split <;> simp

private theorem whole_readExponent (negative : Bool) (significand : Nat) (start : Int)
    (text : List Char) : Whole (readExponent negative significand start text) := by
  rw [readExponent]
  dsimp only
  split
  next => simp
  next =>
    split
    next =>
      split
      · split <;> simp
      · exact whole_floatOf _ _ _ _ _
    next => simp

theorem whole_readExponentPart (negative : Bool) (significand : Nat) (start : Int)
    (text : List Char) (rest : Rest text) :
    Whole (readExponentPart negative significand start text rest) := by
  unfold readExponentPart
  split
  · exact (whole_readExponent _ _ _ _).carry
  · exact (whole_readExponent _ _ _ _).carry
  · exact whole_floatOf _ _ _ _ _

private theorem whole_readFraction (negative : Bool) (significand : Nat) (start : Int)
    (text : List Char) : Whole (readFraction negative significand start text) := by
  unfold readFraction
  split
  · simp
  split
  · exact whole_readExponentPart _ _ _ _ _
  · simp

private theorem whole_readNumberTail (negative : Bool) (significand dropped : Nat)
    (text : List Char) (rest : Rest text) :
    Whole (readNumberTail negative significand dropped text rest) := by
  unfold readNumberTail
  split
  · exact (whole_readFraction _ _ _ _).carry
  · exact whole_readExponentPart _ _ _ _ _
  · exact whole_readExponentPart _ _ _ _ _
  · split
    · simp
    · exact whole_floatOf _ _ _ _ _

private theorem whole_readMagnitude (negative : Bool) (text : List Char) :
    Whole (readMagnitude negative text) := by
  unfold readMagnitude
  split
  · simp
  · split
    · simp
    · exact whole_readNumberTail _ _ _ _ _
  · split
    · exact whole_readNumberTail _ _ _ _ _
    · simp

private theorem whole_readWord (letters text : List Char) : Whole (readWord letters text) := by
  induction letters generalizing text with
  | nil => simp [readWord]
  | cons letter letters ih =>
      rw [readWord]
      dsimp only
      split
      · simp
      next first rest =>
        split
        · split
          next => simp
          next fault hfault => simpa using ih rest fault hfault
        · simp

private theorem whole_readWordAs (letters : List Char) (value : Json) (first : Char)
    (rest : List Char) : Whole (readWordAs letters value first rest) := by
  rw [readWordAs]
  split
  next => simp
  next fault hfault => simpa using whole_readWord letters rest fault hfault

theorem whole_readScalar (first : Char) (rest : List Char) : Whole (readScalar first rest) := by
  unfold readScalar
  split
  · exact whole_readWordAs _ _ _ _
  · exact whole_readWordAs _ _ _ _
  · exact whole_readWordAs _ _ _ _
  · exact ((whole_readStringFrom [] rest).map _).carry
  · exact ((whole_readMagnitude true rest).map _).carry
  · split
    · exact (whole_readMagnitude false _).map _
    · simp

theorem steps_refusal (expected : String) (first : Char) (rest : List Char) :
    (refusal expected first rest).steps = [] := by
  rw [refusal]
  split
  · rfl
  · rfl
  · split
    next fault hfault => exact whole_readScalar first rest fault hfault
    next => rfl

theorem whole_text (name : String) (text : List Char) : Whole ((Shape.text name).read text) := by
  simp only [Shape.text, Shape.scalar]
  split
  · simp
  next first rest _ =>
    split
    next => simpa using steps_refusal name first rest
    next =>
      split
      next fault hfault => simpa using whole_readScalar first rest fault hfault
      next =>
        split <;> simp

/-! ## Strings where targets are expected -/

theorem leaves_text_iff {name target : String} {text rest : List Char} :
    Leaves ((Shape.text name).read text) target rest ↔
      ∃ spelled, skipBlanks text = '"' :: spelled ∧ Leaves (readString spelled) target rest := by
  rw [Shape.text, Shape.leaves_read_scalar_iff]
  constructor
  · rintro ⟨first, later, value, hfirst, -, hread, hvalue⟩
    obtain rfl := ofValue_text_eq_ok_iff.mp hvalue
    obtain ⟨rfl, hspelled⟩ := leaves_readScalar_string_iff.mp hread
    exact ⟨later, hfirst, hspelled⟩
  · rintro ⟨spelled, hquote, hread⟩
    exact ⟨'"', spelled, .string target, hquote, rfl,
      leaves_readScalar_string_iff.mpr ⟨rfl, hread⟩, rfl⟩

inductive TargetAt : List Char → Option String → List Char → Prop
  | string {text spelled rest : List Char} {target : String}
      (hquote : skipBlanks text = '"' :: spelled)
      (hread : Leaves (readString spelled) target rest) :
      TargetAt text (some target) rest
  | other {text rest : List Char}
      (hnone : ∀ spelled target rest, skipBlanks text = '"' :: spelled →
        ¬ Leaves (readString spelled) target rest)
      (hpassed : Leaves (skipValue text) () rest) : TargetAt text none rest

private theorem targetAt_of_readValue {nesting : Nat} {text rest : List Char} {value : Json}
    (h : Leaves (readValue nesting text) value rest) : TargetAt text value.text? rest := by
  cases htext : value.text? with
  | some target =>
      obtain rfl : value = .string target := by cases value <;> simp_all [text?]
      obtain ⟨first, later, hfirst, -, hread⟩ := exists_readScalar_of_readValue h rfl
      obtain ⟨rfl, hspelled⟩ := leaves_readScalar_string_iff.mp hread
      exact .string hfirst hspelled
  | none =>
      refine .other (fun spelled target left hquote hread => ?_) (passes_of_readValue h).skipValue
      have hscalar := leaves_readScalar_string_iff.mpr ⟨rfl, hread⟩
      obtain rfl := (h.unique (leaves_readValue_scalar hquote rfl hscalar)).1
      cases htext

def targetsOf (members : Members) : Entries (Option String) :=
  members.map fun member => (member.1, member.2.text?)

theorem objectAt_targets_of_parseWritten {limit : Nat} {text : String} {members : Members}
    (h : parseWritten limit text = .ok (.object members)) :
    ∃ rest, skipBlanks rest = [] ∧ ObjectAt TargetAt text.toList (targetsOf members) rest := by
  obtain ⟨rest, hread, hend⟩ := readAll_eq_ok_iff.mp h
  cases limit with
  | zero =>
      cases valueAt_of_readValue hread with
      | scalar _ _ hscalar => cases isStructured_of_readScalar hscalar
  | succ limit =>
      have hmembers : ObjectAt TargetAt text.toList (targetsOf members) rest :=
        ObjectAt.map (fun _ _ _ h => targetAt_of_readValue h) (objectAt_of_readValue hread)
      exact ⟨rest, hend, hmembers⟩

end Json

/-! ## Targets one after the other -/

open Json

def targetOf (member : String × Option String) : Except String String :=
  match member.2 with
  | some target => .ok target
  | none => .error member.1

def takeTarget (targets : Entries String) (member : String × Option String) :
    Except String (Entries String) :=
  (targetOf member).map (targets.put member.1)

/-- The first member that lacks a target, if there is one. -/
theorem isSome_or_exists_first (members : Entries (Option String)) :
    (∀ member ∈ members, member.2.isSome = true) ∨
      ∃ before name after, members = before ++ (name, none) :: after ∧
        ∀ member ∈ before, member.2.isSome = true := by
  cases hfound : List.find? (fun member => member.2.isNone) members with
  | none =>
      refine .inl fun member hmember => ?_
      simpa [Option.isSome_iff_ne_none] using List.find?_eq_none.mp hfound member hmember
  | some member =>
      obtain ⟨hnone, before, after, rfl, hbefore⟩ := List.find?_eq_some_iff_append.mp hfound
      obtain ⟨name, target⟩ := member
      obtain rfl := Option.isNone_iff_eq_none.mp hnone
      refine .inr ⟨before, name, after, rfl, fun member hmember => ?_⟩
      simpa using hbefore member hmember

def withTargets (written : Entries String) : Entries (Option String) :=
  written.map fun entry => (entry.1, some entry.2)

theorem exists_eq_withTargets {members : Entries (Option String)}
    (h : ∀ member ∈ members, member.2.isSome = true) :
    ∃ written, members = withTargets written := by
  induction members with
  | nil => exact ⟨[], rfl⟩
  | cons member members ih =>
      obtain ⟨hmember, hmembers⟩ := List.forall_mem_cons.mp h
      obtain ⟨name, target⟩ := member
      obtain ⟨target, rfl⟩ := Option.isSome_iff_exists.mp hmember
      obtain ⟨written, rfl⟩ := ih hmembers
      exact ⟨(name, target) :: written, rfl⟩

theorem foldlM_takeTarget_withTargets (written targets : Entries String) :
    (withTargets written).foldlM takeTarget targets = .ok (targets.putAll written) := by
  induction written generalizing targets with
  | nil => rfl
  | cons entry written ih => exact ih (targets.put entry.1 entry.2)

private theorem foldlM_takeTarget_of_none {before after : Entries (Option String)} {name : String}
    (h : ∀ member ∈ before, member.2.isSome = true) (targets : Entries String) :
    (before ++ (name, none) :: after).foldlM takeTarget targets = .error name := by
  obtain ⟨written, rfl⟩ := exists_eq_withTargets h
  rw [List.foldlM_append, foldlM_takeTarget_withTargets]
  rfl

private theorem agrees_target {name : String} {text rest : List Char} {key : String}
    {target : Option String} (h : TargetAt text target rest) :
    Agrees (fun fault culprit => (fault.within (.key key)).steps = [.key culprit])
      ((Shape.text name).read text) rest (targetOf (key, target)) := by
  cases h with
  | string hquote hread => exact leaves_text_iff.mpr ⟨_, hquote, hread⟩
  | other hnone hpassed =>
      obtain ⟨fault, hfault⟩ : ∃ fault, (Shape.text name).read text = .error fault := by
        refine Leaves.exists_error fun target rest hread => ?_
        obtain ⟨spelled, hquote, hspelled⟩ := leaves_text_iff.mp hread
        exact hnone spelled target rest hquote hspelled
      exact ⟨fault, hfault, congrArg (Step.key key :: ·) (whole_text name text fault hfault)⟩

theorem agrees_manifestShape {text rest : List Char} {members : Entries (Option String)}
    (h : ObjectAt TargetAt text members rest) :
    Agrees (fun fault culprit => fault.steps = [.key culprit]) (manifestShape.read text) rest
      (members.foldlM takeTarget []) := by
  obtain ⟨inner, hopen, hmembers⟩ := h
  simp only [manifestShape, Shape.map]
  split
  next hend => cases hopen.symm.trans hend
  next more hmore =>
    obtain rfl := (List.cons.inj (hopen.symm.trans hmore)).2
    refine Agrees.carry (agrees_readMembers hmembers ?_ [])
    intro targets key target _ colon later after hcolon htarget
    exact (Agrees.afterColon hcolon (agrees_target htarget)).map
  next first more hother hmore =>
    exact absurd (List.cons.inj (hopen.symm.trans hmore)).1.symm hother

section

variable {files : FileTree} {path text : String} (hread : files.read path = .ok text)
  {members : Entries (Option String)} {rest : List Char}

include hread

theorem loadManifest_withTargets {written : Entries String}
    (h : ObjectAt TargetAt text.toList (withTargets written) rest) :
    loadManifest files path = .ok (written.merge.map fun target =>
      (target.1, PathText.join (folderOf path) target.2)) := by
  have hagrees := agrees_manifestShape h
  rw [foldlM_takeTarget_withTargets] at hagrees
  obtain ⟨later, hlater, -⟩ := hagrees
  rw [loadManifest, loadShape, readFile_of_read hread]
  simp only [hlater]
  rfl

theorem loadManifest_of_none (h : ObjectAt TargetAt text.toList members rest)
    {before after : Entries (Option String)} {name : String}
    (hmembers : members = before ++ (name, none) :: after)
    (hbefore : ∀ member ∈ before, member.2.isSome = true) :
    ∃ cause, loadManifest files path = .error (.wrongShape path [.key name] cause) := by
  have hagrees := agrees_manifestShape h
  rw [hmembers, foldlM_takeTarget_of_none hbefore] at hagrees
  obtain ⟨fault, hfault, hsteps⟩ := hagrees
  refine ⟨fault.cause, ?_⟩
  rw [loadManifest, loadShape, readFile_of_read hread]
  simp only [hfault, hsteps]

end

private theorem steps_manifestShape {text : List Char}
    (h : ∀ inner, skipBlanks text ≠ '\x7b' :: inner) :
    ∃ fault, manifestShape.read text = .error fault ∧ fault.steps = [] := by
  simp only [manifestShape, Shape.map]
  split
  next => exact ⟨_, rfl, rfl⟩
  next more hmore => exact absurd hmore (h more)
  next first more _ _ => exact ⟨_, rfl, steps_refusal _ _ _⟩

/-- An object is loaded as a manifest exactly if all its values are strings, whatever keys come
twice, and the last value of a name counts.  Of the values that are none the first one is at fault,
whatever comes behind it, and no text is refused but for its shape. -/
theorem manifests_hold_targets_only (files : FileTree) (path text : String)
    (hread : files.read path = .ok text) :
    (∀ members rest, ObjectAt TargetAt text.toList members rest →
      ((∃ manifest, loadManifest files path = .ok manifest) ↔
        ∀ member ∈ members, member.2.isSome = true) ∧
      (∀ manifest, loadManifest files path = .ok manifest →
        Entries.names manifest = (Entries.names members).eraseDups ∧
        ∀ name, Entries.find? manifest name =
          (Entries.find? members.reverse name).bind fun target =>
            target.map (PathText.join (folderOf path))) ∧
      ∀ before name after, members = before ++ (name, none) :: after →
        (∀ member ∈ before, member.2.isSome = true) →
        ∃ cause, loadManifest files path = .error (.wrongShape path [.key name] cause)) ∧
    (∀ limit members, parseWritten limit text = .ok (.object members) →
      ∃ rest, skipBlanks rest = [] ∧ ObjectAt TargetAt text.toList (targetsOf members) rest) ∧
    ((∀ inner, skipBlanks text.toList ≠ '\x7b' :: inner) →
      ∃ cause, loadManifest files path = .error (.wrongShape path [] cause)) ∧
    ∀ error, loadManifest files path = .error error → error.kind = "Shape" := by
  refine ⟨fun members rest hmembers => ?_, fun _ _ => objectAt_targets_of_parseWritten,
    fun hopen => ?_, fun error herror => ?_⟩
  · have hall : (∃ manifest, loadManifest files path = .ok manifest) →
        ∀ member ∈ members, member.2.isSome = true := by
      rintro ⟨manifest, hload⟩
      rcases isSome_or_exists_first members with hall | ⟨before, name, after, hsplit, hbefore⟩
      · exact hall
      · obtain ⟨cause, herror⟩ := loadManifest_of_none hread hmembers hsplit hbefore
        cases hload.symm.trans herror
    refine ⟨⟨hall, fun h => ?_⟩, fun manifest hload => ?_,
      fun before name after => loadManifest_of_none hread hmembers⟩
    · obtain ⟨written, rfl⟩ := exists_eq_withTargets h
      exact ⟨_, loadManifest_withTargets hread hmembers⟩
    · obtain ⟨written, rfl⟩ := exists_eq_withTargets (hall ⟨manifest, hload⟩)
      obtain rfl := Except.ok.inj (hload.symm.trans (loadManifest_withTargets hread hmembers))
      rw [withTargets]
      refine ⟨?_, fun name => ?_⟩
      · rw [Entries.names_map_snd, Entries.names_merge, Entries.names_map_snd]
      · rw [Entries.find?_map_snd, Entries.find?_merge, ← List.map_reverse, Entries.find?_map_snd]
        cases Entries.find? written.reverse name <;> rfl
  · obtain ⟨fault, hfault, hsteps⟩ := steps_manifestShape hopen
    refine ⟨fault.cause, ?_⟩
    rw [loadManifest, loadShape, readFile_of_read hread]
    simp only [hfault, hsteps]
  · rw [loadManifest] at herror
    split at herror
    next error hshape =>
      cases herror
      exact kind_of_loadShape hread hshape
    next => cases herror

def repeatedTargets : FileTree :=
  ⟨[(["m"], .folder),
    (["m", "good"], .file "\x7b\"a\":\"x\",\"b\":\"/y\",\"a\":\"z\"\x7d".toUTF8),
    (["m", "bad"], .file "\x7b\"a\":\"x\",\"b\":[0],\"b\":\"y\",\"c\":1\x7d".toUTF8),
    (["m", "list"], .file "[]".toUTF8)]⟩

def goodTargets : Members :=
  [("a", .string "x"), ("b", .string "/y"), ("a", .string "z")]

def badTargets : Members :=
  [("a", .string "x"), ("b", .array [.number (.integer 0)]), ("b", .string "y"),
    ("c", .number (.integer 1))]

theorem repeatedTargets_loaded :
    (∃ text, repeatedTargets.read "m/good" = .ok text ∧
      parseWritten 2 text = .ok (.object goodTargets)) ∧
    (∀ member ∈ targetsOf goodTargets, member.2.isSome = true) ∧
    (∃ manifest, loadManifest repeatedTargets "m/good" = .ok manifest ∧
      Entries.names manifest = ["a", "b"] ∧ Entries.find? manifest "a" = some "m/z" ∧
      Entries.find? manifest "b" = some "/y") ∧
    (∃ text, repeatedTargets.read "m/bad" = .ok text ∧
      parseWritten 2 text = .ok (.object badTargets)) ∧
    targetsOf badTargets = [("a", some "x")] ++ ("b", none) :: [("b", some "y"), ("c", none)] ∧
    (∃ cause, loadManifest repeatedTargets "m/bad" =
      .error (.wrongShape "m/bad" [.key "b"] cause)) ∧
    repeatedTargets.read "m/list" = .ok "[]" ∧
    (∀ inner, skipBlanks "[]".toList ≠ '\x7b' :: inner) ∧
    (∃ cause, loadManifest repeatedTargets "m/list" = .error (.wrongShape "m/list" [] cause)) ∧
    ∀ error, loadManifest repeatedTargets "m/list" = .error error → error.kind = "Shape" := by
  have hgood : repeatedTargets.read "m/good" =
      .ok "\x7b\"a\":\"x\",\"b\":\"/y\",\"a\":\"z\"\x7d" := rfl
  have hgood' : parseWritten 2 "\x7b\"a\":\"x\",\"b\":\"/y\",\"a\":\"z\"\x7d" =
      .ok (.object goodTargets) := by decide +kernel
  have hbad : repeatedTargets.read "m/bad" =
      .ok "\x7b\"a\":\"x\",\"b\":[0],\"b\":\"y\",\"c\":1\x7d" := rfl
  have hbad' : parseWritten 2 "\x7b\"a\":\"x\",\"b\":[0],\"b\":\"y\",\"c\":1\x7d" =
      .ok (.object badTargets) := by decide +kernel
  have hlist : repeatedTargets.read "m/list" = .ok "[]" := rfl
  have hopen : ∀ inner, skipBlanks "[]".toList ≠ '\x7b' :: inner := by
    intro inner hinner
    cases hinner
  obtain ⟨hmembers, hwritten, -, -⟩ := manifests_hold_targets_only repeatedTargets _ _ hgood
  obtain ⟨rest, -, hobject⟩ := hwritten 2 goodTargets hgood'
  obtain ⟨hloads, hvalues, -⟩ := hmembers _ _ hobject
  have hall : ∀ member ∈ targetsOf goodTargets, member.2.isSome = true := by decide
  obtain ⟨manifest, hmanifest⟩ := hloads.mpr hall
  obtain ⟨hnames, hfind⟩ := hvalues manifest hmanifest
  obtain ⟨hmembers', hwritten', -, -⟩ := manifests_hold_targets_only repeatedTargets _ _ hbad
  obtain ⟨rest', -, hobject'⟩ := hwritten' 2 badTargets hbad'
  obtain ⟨-, -, hblame⟩ := hmembers' _ _ hobject'
  obtain ⟨-, -, hroot, hkind⟩ := manifests_hold_targets_only repeatedTargets _ _ hlist
  have hsplit : targetsOf badTargets =
      [("a", some "x")] ++ ("b", none) :: [("b", some "y"), ("c", none)] := rfl
  have ha : Entries.find? (targetsOf goodTargets).reverse "a" = some (some "z") := rfl
  have hb : Entries.find? (targetsOf goodTargets).reverse "b" = some (some "/y") := rfl
  have hjoin : PathText.join (folderOf "m/good") "z" = "m/z" := rfl
  have hjoin' : PathText.join (folderOf "m/good") "/y" = "/y" := rfl
  refine ⟨⟨_, hgood, hgood'⟩, hall, ⟨manifest, hmanifest, ?_, ?_, ?_⟩, ⟨_, hbad, hbad'⟩,
    hsplit, hblame _ _ _ hsplit (by decide), hlist, hopen, hroot hopen, hkind⟩
  · rw [hnames]
    decide
  · rw [hfind, ha]
    exact congrArg some hjoin
  · rw [hfind, hb]
    exact congrArg some hjoin'

end TreeSyntax
