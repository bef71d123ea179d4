import TreeSyntax.Json.Shape
import TreeSyntax.Proofs.Containers

/-!
# What the readers of shapes take

The reader of a shape succeeds on a text exactly if the readers of the shapes it is made of succeed
on the parts of the text.
-/

namespace TreeSyntax.Json

namespace Shape

variable {α β : Type} {shape : Shape α}

theorem leaves_read_scalar_iff {name : String} {ofValue : Json → Except Mismatch α}
    {text rest : List Char} {accepted : α} :
    Leaves ((scalar name ofValue).read text) accepted rest ↔
      ∃ first later value, skipBlanks text = first :: later ∧ openBracket? first = none ∧
        Leaves (readScalar first later) value rest ∧ ofValue value = .ok accepted := by
  simp only [scalar]
  split
  next hend => simp [hend, Leaves]
  next first later hfirst =>
    simp only [hfirst, List.cons.injEq]
    constructor
    · intro h
      refine ⟨first, later, ?_⟩
      split at h
      next => exact (Leaves.not_error h).elim
      next hopen =>
        split at h
        next => exact (Leaves.not_error h).elim
        next value left hread =>
          split at h
          next => exact (Leaves.not_error h).elim
          next accepted hvalue =>
            obtain ⟨last, hlast, rfl⟩ := h
            cases hlast
            exact ⟨value, ⟨rfl, rfl⟩, hopen, ⟨left, hread, rfl⟩, hvalue⟩
    · rintro ⟨_, _, value, ⟨rfl, rfl⟩, hopen, ⟨left, hread, rfl⟩, hvalue⟩
      simp only [hopen, hread, hvalue]
      exact ⟨_, rfl, rfl⟩

theorem leaves_read_refine_iff {check : α → Except Mismatch β} {text rest : List Char}
    {checked : β} : Leaves ((shape.refine check).read text) checked rest ↔
      ∃ value, Leaves (shape.read text) value rest ∧ check value = .ok checked := by
  simp only [Shape.refine]
  constructor
  · intro h
    split at h
    next => exact (Leaves.not_error h).elim
    next value later hread =>
      split at h
      next => exact (Leaves.not_error h).elim
      next checked hchecked =>
        obtain ⟨last, hlast, rfl⟩ := h
        cases hlast
        exact ⟨value, ⟨later, hread, rfl⟩, hchecked⟩
  · rintro ⟨value, ⟨later, hread, rfl⟩, hchecked⟩
    simp only [hread, hchecked]
    exact ⟨later, rfl, rfl⟩

theorem leaves_read_orNull_iff {text rest : List Char} {value : Option α} :
    Leaves (shape.orNull.read text) value rest ↔
      (∃ later absent, skipBlanks text = 'n' :: later ∧ Leaves (readScalar 'n' later) absent rest ∧
        value = none) ∨
      ((∀ later, skipBlanks text ≠ 'n' :: later) ∧ ∃ accepted,
        Leaves (shape.read text) accepted rest ∧ value = some accepted) := by
  simp only [Shape.orNull]
  split
  next later hfirst =>
    simp only [hfirst]
    constructor
    · intro h
      split at h
      next => exact (Leaves.not_error h).elim
      next absent last hread =>
        obtain ⟨left, hleft, rfl⟩ := h
        cases hleft
        exact .inl ⟨later, absent, rfl, ⟨last, hread, rfl⟩, rfl⟩
    · rintro (⟨_, absent, hlater, ⟨last, hread, rfl⟩, rfl⟩ | ⟨hnone, -⟩)
      · cases hlater
        simp only [hread]
        exact ⟨_, rfl, rfl⟩
      · exact absurd rfl (hnone later)
  next hnone =>
    rw [Leaves.map_iff]
    constructor
    · exact fun h => .inr ⟨hnone, h⟩
    · rintro (⟨later, -, hfirst, -⟩ | ⟨-, h⟩)
      · exact absurd hfirst (hnone later)
      · exact h

theorem leaves_read_list_iff {text rest : List Char} {values : List α} :
    Leaves (shape.list.read text) values rest ↔
      ∃ inner, skipBlanks text = '[' :: inner ∧
        Leaves (((readItems (fun read _ => shape.read.map (· :: read)) [] 0).map List.reverse)
          inner) values rest := by
  simp only [Shape.list]
  split
  next hend => simp [hend, Leaves]
  next inner hopen => simp [hopen]
  next first later hother hfirst =>
    constructor
    · exact fun h => (Leaves.not_error h).elim
    · rintro ⟨inner, hopen, -⟩
      exact absurd (List.cons.inj (hfirst.symm.trans hopen)).1 hother

theorem leaves_read_map_iff {text rest : List Char} {entries : Entries α} :
    Leaves (shape.map.read text) entries rest ↔
      ∃ inner, skipBlanks text = '\x7b' :: inner ∧
        Leaves (readMembers (fun (entries : Entries α) key =>
          (afterColon key shape.read).map (entries.put key)) [] true inner) entries rest := by
  simp only [Shape.map]
  split
  next hend => simp [hend, Leaves]
  next inner hopen => simp [hopen]
  next first later hother hfirst =>
    refine iff_of_false Leaves.not_error ?_
    rintro ⟨inner, hopen, -⟩
    exact absurd (List.cons.inj (hfirst.symm.trans hopen)).1 hother

/-- A map is what its members make, the last with a key being the one that counts. -/
theorem objectAt_of_read_map {text rest : List Char} {entries : Entries α}
    (h : Leaves (shape.map.read text) entries rest) :
    ∃ written, ObjectAt shape.read.Takes text written rest ∧ entries = Entries.merge written := by
  obtain ⟨inner, hopen, hmembers⟩ := leaves_read_map_iff.mp h
  obtain ⟨written, hwritten, rfl⟩ := exists_membersIn shape.read.Takes
    (fun entries member => entries.put member.1 member.2) (fun _ _ _ _ _ h => by
      obtain ⟨value, hvalue, rfl⟩ := Leaves.map_iff.mp h
      obtain ⟨later, hcolon, hlater⟩ := leaves_afterColon_iff.mp hvalue
      exact ⟨later, value, hcolon, hlater, rfl⟩) hmembers
  exact ⟨written, ⟨inner, hopen, hwritten⟩, rfl⟩

end Shape

namespace RecordShape

variable {σ α : Type} {record : RecordShape σ α} {text rest : List Char}

theorem mem_fields_of_field? {name : String} {field : Field σ}
    (h : record.field? name = some field) : field ∈ record.fields ∧ field.name = name :=
  ⟨List.mem_of_find?_eq_some h, by simpa using List.find?_some h⟩

private theorem readClosing_closed {text rest : List Char}
    (hclosed : skipBlanks text = ']' :: rest) : readClosing text = .ok (.past hclosed) := by
  unfold readClosing
  split
  next hend => cases hclosed.symm.trans hend
  next later hlater =>
    obtain rfl := (List.cons.inj (hclosed.symm.trans hlater)).2
    rfl
  next later hlater => cases hclosed.symm.trans hlater
  next hnone _ => exact absurd hclosed (hnone rest)

theorem leaves_read_iff {value : α} : Leaves (record.read text) value rest ↔
    (∃ inner state, skipBlanks text = '[' :: inner ∧
      Leaves (readFields record.fields record.start 0 inner) state rest ∧
      record.conclude state = .ok value) ∨
    ∃ inner state, skipBlanks text = '\x7b' :: inner ∧
      Leaves (readMembers record.readMember record.start true inner) state rest ∧
      record.finish state = .ok value := by
  unfold read
  split
  next hend => simp [hend, Leaves]
  next inner hopen =>
    simp only [hopen, List.cons.injEq, true_and]
    constructor
    · intro h
      split at h
      next => exact (Leaves.not_error h).elim
      next state later hread =>
        split at h
        next => exact (Leaves.not_error h).elim
        next value hvalue =>
          obtain ⟨last, hlast, rfl⟩ := h
          cases hlast
          exact .inl ⟨inner, state, rfl, ⟨later, hread, rfl⟩, hvalue⟩
    · rintro (⟨_, state, rfl, ⟨later, hread, rfl⟩, hvalue⟩ | ⟨_, _, ⟨hother, -⟩, -⟩)
      · simp only [hread, hvalue]
        exact ⟨_, rfl, rfl⟩
      · cases hother
  next inner hopen =>
    simp only [hopen, List.cons.injEq, true_and]
    constructor
    · intro h
      split at h
      next => exact (Leaves.not_error h).elim
      next state later hread =>
        split at h
        next => exact (Leaves.not_error h).elim
        next value hvalue =>
          obtain ⟨last, hlast, rfl⟩ := h
          cases hlast
          exact .inr ⟨inner, state, rfl, ⟨later, hread, rfl⟩, hvalue⟩
    · rintro (⟨_, _, ⟨hother, -⟩, -⟩ | ⟨_, state, rfl, ⟨later, hread, rfl⟩, hvalue⟩)
      · cases hother
      · simp only [hread, hvalue]
        exact ⟨_, rfl, rfl⟩
  next first later hlist hmap hfirst =>
    constructor
    · exact fun h => (Leaves.not_error h).elim
    · rintro (⟨inner, -, hopen, -⟩ | ⟨inner, -, hopen, -⟩)
      · exact absurd (List.cons.inj (hfirst.symm.trans hopen)).1 hlist
      · exact absurd (List.cons.inj (hfirst.symm.trans hopen)).1 hmap

theorem readFields_nil (state : σ) (index : Nat) (text : List Char) :
    readFields [] state index text = (readClosing text).map fun rest => ((state, false), rest) :=
  rfl

theorem readFields_cons (text : List Char) (field : Field σ) (fields : List (Field σ)) (state : σ)
    (index : Nat) :
    readFields (field :: fields) state index text =
      match nextItem index text with
      | .error fault => .error fault
      | .ok (.closed rest) => .ok ((state, true), rest)
      | .ok (.item start) =>
          match field.shape.read start.1 with
          | .error fault => .error (fault.within (.index index))
          | .ok (value, later) =>
              Reader.carry ((Nat.le_of_lt later.2).trans start.2)
                (readFields fields (field.fill value state) (index + 1) later.1) :=
  rfl

theorem leaves_readFields_nil_iff {state : σ} {index : Nat} {final : σ × Bool} :
    Leaves (readFields [] state index text) final rest ↔
      skipBlanks text = ']' :: rest ∧ final = (state, false) := by
  rw [readFields_nil]
  constructor
  · intro h
    cases hclosing : readClosing text with
    | error fault => simp [hclosing, Leaves, Except.map] at h
    | ok later =>
        rw [hclosing] at h
        obtain ⟨last, hlast, rfl⟩ := h
        cases hlast
        unfold readClosing at hclosing
        split at hclosing
        next => cases hclosing
        next inner hclosed =>
          cases hclosing
          exact ⟨hclosed, rfl⟩
        next => split at hclosing <;> cases hclosing
        next => cases hclosing
  · rintro ⟨hclosed, rfl⟩
    rw [readClosing_closed hclosed]
    exact ⟨_, rfl, rfl⟩

theorem leaves_readFields_cons_iff {field : Field σ} {fields : List (Field σ)} {state : σ}
    {index : Nat} {final : σ × Bool} :
    Leaves (readFields (field :: fields) state index text) final rest ↔
      (skipBlanks text = ']' :: rest ∧ final = (state, true)) ∨
      ∃ opening value later, Starts (index == 0) text opening ∧ OpensItem opening ∧
        Leaves (field.shape.read opening) value later ∧
        Leaves (readFields fields (field.fill value state) (index + 1) later) final rest := by
  rw [readFields_cons]
  constructor
  · intro h
    split at h
    next => exact (Leaves.not_error h).elim
    next closing hnext =>
      obtain ⟨last, hlast, rfl⟩ := h
      cases hlast
      exact .inl ⟨skipBlanks_of_nextItem_closed hnext, rfl⟩
    next start hnext =>
      split at h
      next => exact (Leaves.not_error h).elim
      next value later hread =>
        obtain ⟨hstart, hopen⟩ := starts_of_nextItem_item hnext
        exact .inr ⟨start.1, value, later.1, hstart, hopen, ⟨later, hread, rfl⟩,
          Leaves.carry_iff.mp h⟩
  · rintro (⟨hclosed, rfl⟩ | ⟨opening, value, later, hstart, hopen, hread, hfields⟩)
    · rw [nextItem_closing index hclosed]
      exact ⟨_, rfl, rfl⟩
    · obtain ⟨start, hnext, rfl⟩ := exists_nextItem hstart hopen
      obtain ⟨last, hread, rfl⟩ := hread
      rw [hnext]
      simp only [hread]
      exact hfields.carry

end RecordShape

end TreeSyntax.Json
