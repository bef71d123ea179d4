import TreeSyntax.Load.Basic
import TreeSyntax.Proofs.Parsed
import TreeSyntax.Proofs.Passed
import TreeSyntax.Proofs.Shapes

/-!
# Shapes in texts and in values

A shape is recognised in a text as it is recognised in the value that the text is read as, with
the same result.  A text may repeat a key where a value cannot, so for records this needs that no
key comes twice.
-/

namespace TreeSyntax

namespace Json

/-! ## How values begin -/

theorem isStructured_of_readScalar {first : Char} {text rest : List Char} {value : Json}
    (h : Leaves (readScalar first text) value rest) : value.isStructured = false := by
  obtain ⟨later, hread, -⟩ := h
  have hnesting := nesting_of_readScalar hread
  cases value with
  | array items => simp [nesting] at hnesting
  | object members => simp [nesting] at hnesting
  | _ => rfl

theorem eq_null_iff_of_readScalar {first : Char} {text rest : List Char} {value : Json}
    (h : Leaves (readScalar first text) value rest) : value = .null ↔ first = 'n' := by
  unfold readScalar at h
  split at h
  next =>
    obtain ⟨later, hread, -⟩ := h
    simp [eq_of_readWordAs hread]
  next =>
    obtain ⟨later, hread, -⟩ := h
    simp [eq_of_readWordAs hread]
  next =>
    obtain ⟨later, hread, -⟩ := h
    simp [eq_of_readWordAs hread]
  next =>
    obtain ⟨text, -, rfl⟩ := Leaves.map_iff.mp (Leaves.carry_iff.mp h)
    simp
  next =>
    obtain ⟨number, -, rfl⟩ := Leaves.map_iff.mp (Leaves.carry_iff.mp h)
    simp
  next hnull _ _ _ _ =>
    split at h
    next =>
      obtain ⟨number, -, rfl⟩ := Leaves.map_iff.mp h
      simpa using hnull
    next => exact (Leaves.not_error h).elim

theorem leaves_readScalar_string_iff {first : Char} {later rest : List Char} {text : String} :
    Leaves (readScalar first later) (.string text) rest ↔
      first = '"' ∧ Leaves (readString later) text rest := by
  constructor
  · intro h
    unfold readScalar at h
    split at h
    next =>
      obtain ⟨last, hread, -⟩ := h
      cases eq_of_readWordAs hread
    next =>
      obtain ⟨last, hread, -⟩ := h
      cases eq_of_readWordAs hread
    next =>
      obtain ⟨last, hread, -⟩ := h
      cases eq_of_readWordAs hread
    next =>
      obtain ⟨read, hread, htext⟩ := Leaves.map_iff.mp (Leaves.carry_iff.mp h)
      cases htext
      exact ⟨rfl, hread⟩
    next =>
      obtain ⟨number, -, hnumber⟩ := Leaves.map_iff.mp (Leaves.carry_iff.mp h)
      cases hnumber
    next =>
      split at h
      next =>
        obtain ⟨number, -, hnumber⟩ := Leaves.map_iff.mp h
        cases hnumber
      next => exact (Leaves.not_error h).elim
  · rintro ⟨rfl, hread⟩
    rw [readScalar]
    exact (hread.map string).carry

def bracket? : Json → Option Bracket
  | .array _ => some .list
  | .object _ => some .map
  | _ => none

theorem bracket?_of_not_isStructured {value : Json} (h : value.isStructured = false) :
    value.bracket? = none := by
  cases value <;> simp_all [bracket?, isStructured]

/-- The first character of a value tells its kind. -/
theorem exists_first_of_readValue {nesting : Nat} {text rest : List Char} {value : Json}
    (h : Leaves (readValue nesting text) value rest) :
    ∃ first later, skipBlanks text = first :: later ∧ openBracket? first = value.bracket? ∧
      (value = .null ↔ first = 'n') := by
  cases valueAt_of_readValue h with
  | array hitems =>
      obtain ⟨inner, hopen, -⟩ := hitems
      exact ⟨'[', inner, hopen, rfl, by simp⟩
  | object hmembers =>
      obtain ⟨inner, hopen, -⟩ := hmembers
      exact ⟨'\x7b', inner, hopen, rfl, by simp⟩
  | scalar hfirst hopen hread =>
      have hscalar := bracket?_of_not_isStructured (isStructured_of_readScalar hread)
      exact ⟨_, _, hfirst, hopen.trans hscalar.symm, eq_null_iff_of_readScalar hread⟩

theorem arrayAt_of_readValue {nesting : Nat} {text rest : List Char} {items : List Json}
    (h : Leaves (readValue (nesting + 1) text) (.array items) rest) :
    ArrayAt (readValue nesting).Takes text items rest := by
  cases valueAt_of_readValue h with
  | array hitems => exact hitems
  | scalar _ _ hread => cases isStructured_of_readScalar hread

theorem objectAt_of_readValue {nesting : Nat} {text rest : List Char} {members : Members}
    (h : Leaves (readValue (nesting + 1) text) (.object members) rest) :
    ObjectAt (readValue nesting).Takes text members rest := by
  cases valueAt_of_readValue h with
  | object hmembers => exact hmembers
  | scalar _ _ hread => cases isStructured_of_readScalar hread

theorem exists_readScalar_of_readValue {nesting : Nat} {text rest : List Char} {value : Json}
    (h : Leaves (readValue nesting text) value rest) (hscalar : value.bracket? = none) :
    ∃ first later, skipBlanks text = first :: later ∧ openBracket? first = none ∧
      Leaves (readScalar first later) value rest := by
  cases valueAt_of_readValue h with
  | array hitems => cases hscalar
  | object hmembers => cases hscalar
  | scalar hfirst hopen hread => exact ⟨_, _, hfirst, hopen, hread⟩

theorem merged_of_bracket?_eq_none {value : Json} (h : value.bracket? = none) :
    value.merged = value := by
  cases value with
  | array items => cases h
  | object members => cases h
  | _ => rfl

theorem mergedItems_eq_map (items : List Json) : mergedItems items = items.map merged := by
  induction items with
  | nil => rfl
  | cons item items ih => rw [mergedItems, ih, List.map_cons]

theorem mergedMembers_eq_map (members : Members) :
    mergedMembers members = members.map fun member => (member.1, member.2.merged) := by
  induction members with
  | nil => rfl
  | cons member members ih => rw [mergedMembers, ih, List.map_cons]

/-! ## Shapes that stream -/

abbrev Follows {α : Type} {text : List Char} (read : Except Fault (α × Rest text))
    (rest : List Char) (decoded : Except Mismatch α) : Prop :=
  Agrees (fun _ _ => True) read rest decoded

theorem Follows.of_errors {α : Type} {text rest : List Char} {read : Except Fault (α × Rest text)}
    {decoded : Except Mismatch α} (hread : ∃ fault, read = .error fault)
    (hdecoded : ∃ mismatch, decoded = .error mismatch) : Follows read rest decoded := by
  obtain ⟨fault, rfl⟩ := hread
  obtain ⟨mismatch, rfl⟩ := hdecoded
  exact ⟨fault, rfl, trivial⟩

/-- What a reader takes begins otherwise than the value, so it refuses the text of the value. -/
theorem Follows.of_other_kind {α : Type} {nesting : Nat} {value : Json} {text rest : List Char}
    {read : Except Fault (α × Rest text)} {decoded : Except Mismatch α}
    (hread : Leaves (readValue nesting text) value rest)
    (hother : ∀ accepted left, Leaves read accepted left →
      ∃ first later, skipBlanks text = first :: later ∧ openBracket? first ≠ value.bracket?)
    (hdecoded : ∃ mismatch, decoded = .error mismatch) : Follows read rest decoded := by
  obtain ⟨first, later, hfirst, hopen, -⟩ := exists_first_of_readValue hread
  refine .of_errors (Leaves.exists_error fun accepted left h => ?_) hdecoded
  obtain ⟨first', later', hfirst', hne⟩ := hother accepted left h
  obtain rfl := (List.cons.inj (hfirst.symm.trans hfirst')).1
  exact hne hopen

theorem Follows.cases {α : Type} {text rest : List Char} {read : Except Fault (α × Rest text)}
    {decoded : Except Mismatch α} (h : Follows read rest decoded) :
    (∃ fault mismatch, read = .error fault ∧ decoded = .error mismatch) ∨
      ∃ value later, read = .ok (value, later) ∧ decoded = .ok value ∧ later.1 = rest := by
  cases decoded with
  | error mismatch =>
      obtain ⟨fault, hfault, -⟩ := h
      exact .inl ⟨fault, mismatch, hfault, rfl⟩
  | ok value =>
      obtain ⟨later, hlater, hrest⟩ := h
      exact .inr ⟨value, later, hlater, rfl, hrest⟩

/-- All errors are alike. -/
theorem Follows.congr {α : Type} {text rest : List Char} {read : Except Fault (α × Rest text)}
    {decoded decoded' : Except Mismatch α} (h : Follows read rest decoded)
    (hsame : ∀ value, decoded = .ok value ↔ decoded' = .ok value) : Follows read rest decoded' := by
  cases decoded with
  | ok value => exact (hsame value).mp rfl ▸ h
  | error mismatch =>
      cases decoded' with
      | ok value => exact absurd ((hsame value).mpr rfl) nofun
      | error mismatch' => exact h

/-- The shape is recognised at the front of a text as in the value there. -/
def Shape.Streams {α : Type} (shape : Shape α) (nesting : Nat) (allowed : Json → Prop) : Prop :=
  ∀ text value rest, Leaves (readValue nesting text) value rest → allowed value →
    Follows (shape.read text) rest (shape.ofValue value.merged)

namespace Shape

variable {α β : Type} {shape : Shape α} {nesting : Nat} {allowed : Json → Prop}

theorem streams_any (nesting : Nat) : (any nesting).Streams nesting fun _ => True :=
  fun _ _ _ hread _ => hread.map merged

/-! ### Scalars -/

theorem streams_scalar {name : String} {ofValue : Json → Except Mismatch α}
    (hcontainer : ∀ value, value.bracket? ≠ none → ∃ mismatch, ofValue value = .error mismatch)
    (nesting : Nat) : (scalar name ofValue).Streams nesting fun _ => True := by
  intro text value rest hread _
  by_cases hscalar : value.bracket? = none
  · obtain ⟨first, later, hfirst, hopen, hlast⟩ := exists_readScalar_of_readValue hread hscalar
    rw [merged_of_bracket?_eq_none hscalar]
    change Follows _ rest (ofValue value)
    cases hvalue : ofValue value with
    | ok accepted =>
        exact leaves_read_scalar_iff.mpr ⟨first, later, value, hfirst, hopen, hlast, hvalue⟩
    | error mismatch =>
        refine .of_errors (Leaves.exists_error fun accepted left h => ?_) ⟨mismatch, rfl⟩
        obtain ⟨_, _, other, hother, -, hlast', hvalue'⟩ := leaves_read_scalar_iff.mp h
        obtain ⟨rfl, rfl⟩ := List.cons.inj (hfirst.symm.trans hother)
        obtain rfl := (hlast.unique hlast').1
        cases hvalue.symm.trans hvalue'
  · refine .of_other_kind hread (fun accepted left h => ?_) (hcontainer _ ?_)
    · obtain ⟨first, later, _, hfirst, hnone, -⟩ := leaves_read_scalar_iff.mp h
      exact ⟨first, later, hfirst, hnone ▸ Ne.symm hscalar⟩
    · cases value <;> simp_all [merged, bracket?]

theorem streams_text (name : String) (nesting : Nat) :
    (text name).Streams nesting fun _ => True :=
  streams_scalar (fun value hvalue => by cases value <;> simp_all [bracket?]) nesting

theorem streams_bool (nesting : Nat) : bool.Streams nesting fun _ => True :=
  streams_scalar (fun value hvalue => by cases value <;> simp_all [bracket?]) nesting

/-! ### Shapes made of others -/

theorem Streams.mono {allowed' : Json → Prop} (h : shape.Streams nesting allowed)
    (hallowed : ∀ value, allowed' value → allowed value) : shape.Streams nesting allowed' :=
  fun text value rest hread hvalue => h text value rest hread (hallowed value hvalue)

theorem Streams.refine (h : shape.Streams nesting allowed) (check : α → Except Mismatch β) :
    (shape.refine check).Streams nesting allowed := by
  intro text value rest hread hvalue
  have hshape := h text value rest hread hvalue
  simp only [Shape.refine]
  cases hdecoded : shape.ofValue value.merged with
  | error mismatch =>
      rw [hdecoded] at hshape
      obtain ⟨fault, hfault, -⟩ := hshape
      exact ⟨fault, by rw [hfault], trivial⟩
  | ok accepted =>
      rw [hdecoded] at hshape
      obtain ⟨later, hlater, rfl⟩ := hshape
      rw [hlater]
      dsimp only
      cases check accepted with
      | error mismatch => exact ⟨_, rfl, trivial⟩
      | ok checked => exact ⟨_, rfl, rfl⟩

theorem read_orNull_of_ne {text later : List Char} {first : Char}
    (hfirst : skipBlanks text = first :: later) (h : first ≠ 'n') :
    shape.orNull.read text = (shape.read.map some) text := by
  simp only [Shape.orNull]
  split
  next more hmore => exact absurd (List.cons.inj (hfirst.symm.trans hmore)).1 h
  next => rfl

private theorem ofValue_orNull_of_ne_null {value : Json} (h : value ≠ .null) :
    shape.orNull.ofValue value = (shape.ofValue value).map some := by
  cases value <;> simp_all [Shape.orNull]

theorem Streams.orNull (h : shape.Streams nesting fun _ => True) :
    shape.orNull.Streams nesting fun _ => True := by
  intro text value rest hread _
  by_cases hnull : value = .null
  · subst hnull
    obtain ⟨first, later, hfirst, -, hscalar⟩ := exists_readScalar_of_readValue hread rfl
    obtain rfl := (eq_null_iff_of_readScalar hscalar).mp rfl
    exact leaves_read_orNull_iff.mpr (.inl ⟨later, .null, hfirst, hscalar, rfl⟩)
  · obtain ⟨first, later, hfirst, -, hn⟩ := exists_first_of_readValue hread
    have hmerged : value.merged ≠ .null := by cases value <;> simp_all [merged]
    rw [read_orNull_of_ne hfirst (fun heq => hnull (hn.mpr heq)),
      ofValue_orNull_of_ne_null hmerged]
    exact (h text value rest hread trivial).map

/-! ### Lists -/

/-- Elements are gathered with the last in front. -/
theorem foldlM_cons_eq_mapM {ε : Type} (f : β → Except ε α) (items : List β) (read : List α) :
    (items.foldlM (fun read item => (f item).map (· :: read)) read).map List.reverse =
      (items.mapM f).map (read.reverse ++ ·) := by
  induction items generalizing read with
  | nil => simp [List.mapM_nil, pure, Except.pure, Except.map]
  | cons item items ih =>
      rw [List.foldlM_cons, List.mapM_cons]
      cases f item with
      | error error => rfl
      | ok accepted =>
          have hmore := ih (accepted :: read)
          simp only [Except.map, bind, Except.bind, pure, Except.pure] at hmore ⊢
          rw [hmore]
          cases items.mapM f <;> simp

theorem mapM_eq_foldlM_cons {ε : Type} (f : β → Except ε α) (items : List β) :
    items.mapM f =
      (items.foldlM (fun read item => (f item).map (· :: read)) []).map List.reverse := by
  rw [foldlM_cons_eq_mapM]
  cases items.mapM f <;> rfl

theorem Streams.list (h : shape.Streams nesting fun _ => True) :
    shape.list.Streams (nesting + 1) fun _ => True := by
  intro text value rest hread _
  cases value with
  | array items =>
      obtain ⟨inner, hopen, hitems⟩ := arrayAt_of_readValue hread
      have hvalue : shape.list.ofValue (merged (.array items)) =
          items.mapM fun item => shape.ofValue item.merged := by
        rw [merged, mergedItems_eq_map]
        exact List.mapM_map
      rw [hvalue, mapM_eq_foldlM_cons]
      simp only [Shape.list]
      split
      next hend => cases hopen.symm.trans hend
      next more hmore =>
        obtain rfl := (List.cons.inj (hopen.symm.trans hmore)).2
        refine Agrees.carry (Agrees.map (agrees_readItems ?_ hitems [] 0 rfl))
        intro read index opening item after hitem
        exact (h opening item after hitem trivial).map
      next first more hother hmore =>
        exact absurd (List.cons.inj (hopen.symm.trans hmore)).1.symm hother
  | _ =>
      refine .of_other_kind hread (fun values left h => ?_) ⟨_, rfl⟩
      obtain ⟨inner, hinner, -⟩ := leaves_read_list_iff.mp h
      exact ⟨'[', inner, hinner, by simp [openBracket?, bracket?]⟩

/-! ### Maps -/

theorem ofValue_map_any (members : Members) :
    (any nesting).map.ofValue (.object members) = .ok (Entries.merge members) :=
  List.foldlM_pure (m := Except Mismatch)

/-- Where any value will do, a repeated key does no harm. -/
theorem streams_map_any (nesting : Nat) :
    (any nesting).map.Streams (nesting + 1) fun _ => True := by
  intro text value rest hread _
  cases value with
  | object members =>
      obtain ⟨inner, hopen, hmembers⟩ := objectAt_of_readValue hread
      have hvalue : (any nesting).map.ofValue (merged (.object members)) =
          members.foldlM (fun (entries : Members) member =>
            ((any nesting).ofValue member.2.merged).map (entries.put member.1)) [] := by
        rw [merged, ofValue_map_any, Entries.merge_of_nodup (Entries.nodup_merge _),
          mergedMembers_eq_map, Entries.merge, Entries.putAll, List.foldl_map]
        exact (List.foldlM_pure (m := Except Mismatch)).symm
      rw [hvalue]
      simp only [Shape.map]
      split
      next hend => cases hopen.symm.trans hend
      next more hmore =>
        obtain rfl := (List.cons.inj (hopen.symm.trans hmore)).2
        refine Agrees.carry (agrees_readMembers hmembers ?_ [])
        intro entries key value _ colon later after hcolon hvalue
        exact (Agrees.afterColon hcolon (streams_any nesting _ _ _ hvalue trivial)).map
      next first more hother hmore =>
        exact absurd (List.cons.inj (hopen.symm.trans hmore)).1.symm hother
  | _ =>
      refine .of_other_kind hread (fun entries left h => ?_) ⟨_, rfl⟩
      obtain ⟨inner, hinner, -⟩ := leaves_read_map_iff.mp h
      exact ⟨'\x7b', inner, hinner, by simp [openBracket?, bracket?]⟩

end Shape

/-! ## Records -/

namespace RecordShape

variable {σ α : Type} {record : RecordShape σ α} {nesting : Nat}
  {allowed : String → Json → Prop} {members : Members}

def FieldsStream (record : RecordShape σ α) (nesting : Nat) (allowed : String → Json → Prop) :
    Prop :=
  ∀ field ∈ record.fields, field.shape.Streams nesting (allowed field.name)

def takeOnce (record : RecordShape σ α) (state : σ) (member : String × Json) :
    Except Mismatch σ :=
  if (record.field? member.1).any (·.isFilled state) then .error (.repeatedField member.1)
  else record.takeMember state member

private theorem follows_readMember (hfields : record.FieldsStream nesting allowed) (state : σ)
    {key : String} {value : Json} {colon later after : List Char}
    (hcolon : skipBlanks colon = ':' :: later)
    (hread : Leaves (readValue nesting later) value after) (hvalue : allowed key value) :
    Follows (record.readMember state key colon) after
      (record.takeOnce state (key, value.merged)) := by
  rw [readMember, takeOnce, takeMember]
  cases hfield : record.field? key with
  | none =>
      simp only [Option.any_none, Bool.false_eq_true, if_false]
      split
      · exact Leaves.map (leaves_afterColon_iff.mpr
          ⟨later, hcolon, (passes_of_readValue hread).skipValue⟩) _
      · exact ⟨_, rfl, trivial⟩
  | some field =>
      obtain ⟨hmem, rfl⟩ := mem_fields_of_field? hfield
      simp only [Option.any_some]
      split
      · exact ⟨_, rfl, trivial⟩
      · exact (Agrees.afterColon hcolon (hfields field hmem later value after hread hvalue)).map

/-- Members with different keys are taken as if none could come twice. -/
private theorem foldlM_takeOnce (hseparate : record.Separate)
    (hnodup : (Entries.names members).Nodup) {state : σ}
    (hstate : ∀ field ∈ record.fields, field.name ∈ Entries.names members →
      field.isFilled state = false) :
    members.foldlM record.takeOnce state = members.foldlM record.takeMember state := by
  induction members generalizing state with
  | nil => rfl
  | cons member members ih =>
      rw [Entries.names_cons, List.nodup_cons] at hnodup
      simp only [Entries.names_cons, List.mem_cons] at hstate
      have honce : record.takeOnce state member = record.takeMember state member := by
        rw [takeOnce, if_neg]
        cases hfield : record.field? member.1 with
        | none => simp
        | some field =>
            obtain ⟨hmem, hname⟩ := mem_fields_of_field? hfield
            simp [hstate field hmem (.inl hname)]
      rw [List.foldlM_cons, List.foldlM_cons, honce]
      cases htaken : record.takeMember state member with
      | error mismatch => rfl
      | ok next =>
          refine ih hnodup.2 fun field hmem hname => ?_
          have hother : member.1 ≠ field.name := fun heq => hnodup.1 (heq ▸ hname)
          rw [Field.isFilled, (hseparate.sees hmem).other hother htaken]
          exact hstate field hmem (.inr hname)

private theorem foldlM_map_merged (state : σ) :
    (mergedMembers members).foldlM record.takeOnce state =
      members.foldlM (fun state member => record.takeOnce state (member.1, member.2.merged))
        state := by
  rw [mergedMembers_eq_map, List.foldlM_map]

@[simp] theorem names_mergedMembers (members : Members) :
    Entries.names (mergedMembers members) = Entries.names members := by
  rw [mergedMembers_eq_map, Entries.names_map_snd]

theorem follows_finish {text : List Char} (finished : Except Mismatch α) (later : Rest text) :
    Follows (match finished with
      | .error mismatch => .error (.ofMismatch mismatch)
      | .ok value => .ok (value, later)) later.1 finished := by
  cases finished with
  | error mismatch => exact ⟨_, rfl, trivial⟩
  | ok value => exact ⟨later, rfl, rfl⟩

theorem ofMembers_eq_bind :
    record.ofMembers members = members.foldlM record.takeMember record.start >>= record.finish := by
  rw [ofMembers]
  cases members.foldlM record.takeMember record.start <;> rfl

theorem follows_read_object (hfields : record.FieldsStream nesting allowed)
    (hseparate : record.Separate)
    (hstart : ∀ field ∈ record.fields, field.isFilled record.start = false)
    {text rest : List Char}
    (hread : Leaves (readValue (nesting + 1) text) (.object members) rest)
    (hnodup : (Entries.names members).Nodup)
    (hallowed : ∀ key value, (key, value) ∈ members → allowed key value) :
    Follows (record.read text) rest (record.ofMembers (mergedMembers members)) := by
  obtain ⟨inner, hopen, hmembers⟩ := objectAt_of_readValue hread
  have hfold : Follows (readMembers record.readMember record.start true inner) rest
      ((mergedMembers members).foldlM record.takeMember record.start) := by
    rw [← foldlM_takeOnce hseparate (names_mergedMembers members ▸ hnodup)
      (fun field hmem _ => hstart field hmem), foldlM_map_merged]
    refine agrees_readMembers hmembers ?_ record.start
    intro state key value hmem colon later after hcolon hvalue
    exact follows_readMember hfields state hcolon hvalue (hallowed key value hmem)
  rw [ofMembers_eq_bind]
  unfold read
  split
  next hend => cases hopen.symm.trans hend
  next more hmore => cases hopen.symm.trans hmore
  next more hmore =>
    obtain rfl := (List.cons.inj (hopen.symm.trans hmore)).2
    rcases hfold.cases with
      ⟨fault, mismatch, hfault, hdecoded⟩ | ⟨state, later, hlater, hdecoded, rfl⟩
    · exact .of_errors ⟨fault, by simp only [hfault]⟩ ⟨mismatch, by rw [hdecoded]; rfl⟩
    · rw [hdecoded]
      simp only [hlater]
      exact follows_finish (record.finish state) ⟨later.1, _⟩
  next first more _ hother hmore =>
    exact absurd (List.cons.inj (hopen.symm.trans hmore)).1.symm hother

/-! ### Records as arrays -/

def takeOnly (excess : Mismatch) (fields : List (Field σ)) (state : σ) (items : List Json) :
    Except Mismatch (σ × Bool) :=
  match takeFields fields state items with
  | .error mismatch => .error mismatch
  | .ok (final, endedEarly, rest) =>
      if rest.isEmpty then .ok (final, endedEarly) else .error excess

theorem takeOnly_cons (excess : Mismatch) (field : Field σ) (fields : List (Field σ)) (state : σ)
    (item : Json) (items : List Json) :
    takeOnly excess (field :: fields) state (item :: items) =
      field.shape.ofValue item >>= fun value =>
        takeOnly excess fields (field.fill value state) items := by
  rw [takeOnly, takeFields]
  cases field.shape.ofValue item <;> rfl

private theorem not_closed_of_starts {isFirst : Bool} {text opening : List Char}
    (hstart : Starts isFirst text opening) (hopen : OpensItem opening) (rest : List Char) :
    skipBlanks text ≠ ']' :: rest := by
  intro hclosed
  cases hstart with
  | first =>
      obtain ⟨first, later, hfirst, hgoes⟩ := hopen
      exact hgoes (List.cons.inj (hfirst.symm.trans hclosed)).1
  | later hcomma => cases hcomma.symm.trans hclosed

private theorem follows_readClosing {isFirst : Bool} {items : List Json} {text rest : List Char}
    (hitems : ItemsIn (readValue nesting).Takes isFirst text items rest) (excess : Mismatch)
    (state : σ) (index : Nat) :
    Follows (readFields [] state index text) rest
      (takeOnly excess [] state (items.map merged)) := by
  cases hitems with
  | closed hclosed => exact leaves_readFields_nil_iff.mpr ⟨hclosed, rfl⟩
  | item hstart hopen _ _ =>
      refine .of_errors (Leaves.exists_error fun final left h => ?_) ⟨excess, rfl⟩
      exact not_closed_of_starts hstart hopen left (leaves_readFields_nil_iff.mp h).1

private theorem follows_readFields {fields : List (Field σ)}
    (hfields : ∀ field ∈ fields, field.shape.Streams nesting fun _ => True)
    {isFirst : Bool} {items : List Json} {text rest : List Char}
    (hitems : ItemsIn (readValue nesting).Takes isFirst text items rest) (excess : Mismatch)
    (state : σ) (index : Nat) (hindex : isFirst = (index == 0)) :
    Follows (readFields fields state index text) rest
      (takeOnly excess fields state (items.map merged)) := by
  induction fields generalizing isFirst items text state index with
  | nil => exact follows_readClosing hitems excess state index
  | cons field fields ih =>
      obtain ⟨hfield, hfields⟩ := List.forall_mem_cons.mp hfields
      rw [readFields_cons]
      cases hitems with
      | closed hclosed =>
          rw [nextItem_closing index hclosed]
          exact ⟨_, rfl, rfl⟩
      | item hstart hopen hitem hitems =>
          subst hindex
          obtain ⟨start, hnext, rfl⟩ := exists_nextItem hstart hopen
          have hread := hfield _ _ _ hitem trivial
          rw [List.map_cons, takeOnly_cons, hnext]
          cases hdecoded : field.shape.ofValue (merged _) with
          | error mismatch =>
              rw [hdecoded] at hread
              obtain ⟨fault, hfault, -⟩ := hread
              exact ⟨fault.within (.index index), by simp only [hfault], trivial⟩
          | ok value =>
              rw [hdecoded] at hread
              obtain ⟨later, hlater, rfl⟩ := hread
              simp only [hlater]
              exact Agrees.carry (ih hfields hitems (field.fill value state) (index + 1) rfl)

theorem takeOnly_eq_ok_iff (excess : Mismatch) {items : List Json} {value : α} :
    (takeOnly excess record.fields record.start items >>= record.conclude) = .ok value ↔
      record.ofItems items = .ok value := by
  rw [takeOnly, ofItems]
  cases takeFields record.fields record.start items with
  | error mismatch => simp [bind, Except.bind]
  | ok taken =>
      obtain ⟨final, endedEarly, rest⟩ := taken
      cases hconclude : record.conclude (final, endedEarly) <;>
        cases hrest : rest.isEmpty <;> simp [bind, Except.bind, hconclude, hrest]

private theorem follows_read_array (hfields : record.FieldsStream nesting fun _ _ => True)
    {items : List Json} {text rest : List Char}
    (hread : Leaves (readValue (nesting + 1) text) (.array items) rest) :
    Follows (record.read text) rest (record.ofItems (mergedItems items)) := by
  obtain ⟨inner, hopen, hitems⟩ := arrayAt_of_readValue hread
  let excess : Mismatch := .wrongLength items.length "fewer elements in array"
  have hfold := follows_readFields hfields hitems excess record.start 0 rfl
  rw [mergedItems_eq_map]
  refine Follows.congr ?_ fun value => takeOnly_eq_ok_iff excess
  unfold read
  split
  next hend => cases hopen.symm.trans hend
  next more hmore =>
    obtain rfl := (List.cons.inj (hopen.symm.trans hmore)).2
    rcases hfold.cases with
      ⟨fault, mismatch, hfault, hdecoded⟩ | ⟨state, later, hlater, hdecoded, rfl⟩
    · exact .of_errors ⟨fault, by simp only [hfault]⟩ ⟨mismatch, by rw [hdecoded]; rfl⟩
    · rw [hdecoded]
      simp only [hlater]
      exact follows_finish (record.conclude state) ⟨later.1, _⟩
  next more hmore => cases hopen.symm.trans hmore
  next first more hother _ hmore =>
    exact absurd (List.cons.inj (hopen.symm.trans hmore)).1.symm hother

private theorem exists_bracket_of_read {value : α} {text rest : List Char}
    (h : Leaves (record.read text) value rest) :
    ∃ first later bracket, skipBlanks text = first :: later ∧
      openBracket? first = some bracket := by
  rcases leaves_read_iff.mp h with ⟨inner, -, hinner, -⟩ | ⟨inner, -, hinner, -⟩
  · exact ⟨'[', inner, .list, hinner, rfl⟩
  · exact ⟨'\x7b', inner, .map, hinner, rfl⟩

/-- Only objects without repeated keys are records in texts as they are in values. -/
theorem streams (hfields : record.FieldsStream nesting fun _ _ => True)
    (hseparate : record.Separate)
    (hstart : ∀ field ∈ record.fields, field.isFilled record.start = false) :
    record.shape.Streams (nesting + 1) fun value =>
      ∀ members, value = .object members → (Entries.names members).Nodup := by
  intro text value rest hread hvalue
  cases value with
  | array items => exact follows_read_array hfields hread
  | object members =>
      have hnodup := hvalue members rfl
      have hmerged : (Entries.names (mergedMembers members)).Nodup :=
        names_mergedMembers members ▸ hnodup
      rw [merged, Entries.merge_of_nodup hmerged]
      exact follows_read_object hfields hseparate hstart hread hnodup fun _ _ _ => trivial
  | _ =>
      refine .of_other_kind hread (fun accepted left h => ?_) ⟨_, rfl⟩
      obtain ⟨first, later, bracket, hfirst, hopen⟩ := exists_bracket_of_read h
      exact ⟨first, later, hfirst, by simp [hopen, bracket?]⟩

end RecordShape

end Json

/-! ## Files -/

open Json

theorem readFile_of_read {files : FileTree} {path text : String}
    (hread : files.read path = .ok text) : readFile files path = .ok text := by
  rw [readFile, hread]

theorem loadShape_eq_ok_iff {α : Type} {shape : Shape α} {files : FileTree} {path : String}
    {value : α} : loadShape shape files path = .ok value ↔
      ∃ text rest, files.read path = .ok text ∧ Leaves (shape.read text.toList) value rest := by
  constructor
  · intro h
    rw [loadShape] at h
    cases hread : files.read path with
    | error error => simp [readFile, hread] at h
    | ok text =>
        rw [readFile_of_read hread] at h
        dsimp only at h
        split at h
        next later hlater =>
          cases h
          exact ⟨text, later.1, rfl, later, hlater, rfl⟩
        next => cases h
  · rintro ⟨text, rest, hread, later, hlater, rfl⟩
    rw [loadShape, readFile_of_read hread]
    simp only [hlater]

theorem kind_of_loadShape {α : Type} {shape : Shape α} {files : FileTree} {path text : String}
    {error : LoadError} (hread : files.read path = .ok text)
    (h : loadShape shape files path = .error error) : error.kind = "Shape" := by
  rw [loadShape, readFile_of_read hread] at h
  dsimp only at h
  split at h
  next => cases h
  next =>
    cases h
    rfl

end TreeSyntax
