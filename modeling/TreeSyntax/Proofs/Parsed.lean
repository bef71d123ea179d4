import TreeSyntax.Json.Reader
import TreeSyntax.Proofs.Nesting

/-!
# The nesting of parsed values

What holds of every value that a reader takes off a text.  A fold over the elements of an array or
the members of an object keeps whatever one element or one member keeps, and so a text is never
read as a value that is nested deeper than the reader was allowed to go.
-/

namespace TreeSyntax.Json

/-! ## What readers yield -/

def Reader.Yields {α : Type} (reader : Reader α) (property : α → Prop) : Prop :=
  ∀ text value rest, reader text = .ok (value, rest) → property value

namespace Reader

variable {α β : Type}

theorem carry_eq_ok {text later : List Char} {shorter : later.length ≤ text.length}
    {result : Except Fault (α × Rest later)} {value : α} {rest : Rest text}
    (h : carry shorter result = .ok (value, rest)) : ∃ inner, result = .ok (value, inner) := by
  cases result with
  | error fault => cases h
  | ok read =>
      obtain ⟨found, inner⟩ := read
      obtain ⟨rfl, _⟩ := Prod.mk.inj (Except.ok.inj h)
      exact ⟨inner, rfl⟩

theorem Yields.map {reader : Reader α} {convert : α → β} {property : β → Prop}
    (h : reader.Yields fun value => property (convert value)) :
    (reader.map convert).Yields property := by
  intro text value rest hread
  simp only [Reader.map] at hread
  cases hinner : reader text with
  | error fault => simp [hinner] at hread
  | ok read =>
      simp only [hinner, Except.ok.injEq, Prod.mk.injEq] at hread
      obtain ⟨rfl, _⟩ := hread
      exact h text read.1 read.2 hinner

theorem Yields.within {reader : Reader α} {property : α → Prop} (h : reader.Yields property)
    (step : Step) : (reader.within step).Yields property := by
  intro text value rest hread
  simp only [Reader.within] at hread
  cases hinner : reader text with
  | error fault => simp [hinner, Except.mapError] at hread
  | ok read =>
      simp only [hinner, Except.mapError, Except.ok.injEq] at hread
      exact h text value rest (hread ▸ hinner)

end Reader

theorem yields_afterColon {α : Type} {reader : Reader α} {property : α → Prop}
    (h : reader.Yields property) (key : String) : (afterColon key reader).Yields property := by
  intro text value rest hread
  rw [afterColon] at hread
  split at hread
  · cases hread
  · obtain ⟨inner, hinner⟩ := Reader.carry_eq_ok hread
    exact h.within (.key key) _ value inner hinner
  · cases hread

/-! ## Folds over containers -/

section

variable {σ : Type} {invariant : σ → Prop}

/-- What every element keeps holds after the whole array. -/
private theorem yields_readItems {item : σ → Nat → Reader σ}
    (hstep : ∀ state index, invariant state → (item state index).Yields invariant)
    {state : σ} (hstart : invariant state) (index : Nat) :
    (readItems item state index).Yields invariant := by
  intro text last rest hread
  fun_induction readItems item state index text with
  | case1 => cases hread
  | case2 state index text closing hnext =>
      obtain ⟨rfl, _⟩ := Prod.mk.inj (Except.ok.inj hread)
      exact hstart
  | case3 => cases hread
  | case4 state index text start hnext next later hitem ih =>
      obtain ⟨inner, hinner⟩ := Reader.carry_eq_ok hread
      exact ih (hstep state index hstart _ next later hitem) inner hinner

private theorem yields_readMembers {member : σ → String → Reader σ}
    (hstep : ∀ state key, invariant state → (member state key).Yields invariant)
    {state : σ} (hstart : invariant state) (isFirst : Bool) :
    (readMembers member state isFirst).Yields invariant := by
  intro text last rest hread
  fun_induction readMembers member state isFirst text with
  | case1 => cases hread
  | case2 state isFirst text closing hkey =>
      obtain ⟨rfl, _⟩ := Prod.mk.inj (Except.ok.inj hread)
      exact hstart
  | case3 => cases hread
  | case4 state isFirst text key start hkey next later hmember ih =>
      obtain ⟨inner, hinner⟩ := Reader.carry_eq_ok hread
      exact ih (hstep state key hstart _ next later hmember) inner hinner

end

/-! ## Values -/

theorem eq_of_readWordAs {letters : List Char} {word value : Json} {first : Char}
    {rest : List Char} {later : Rest (first :: rest)}
    (h : readWordAs letters word first rest = .ok (value, later)) : value = word := by
  rw [readWordAs] at h
  split at h
  · exact (Prod.mk.inj (Except.ok.inj h)).1.symm
  · cases h

theorem nesting_of_readScalar {first : Char} {rest : List Char} {value : Json}
    {later : Rest (first :: rest)} (h : readScalar first rest = .ok (value, later)) :
    value.nesting = 0 := by
  have hstring : (readString.map Json.string).Yields fun value => value.nesting = 0 :=
    Reader.Yields.map fun _ _ _ _ => rfl
  have hnumber (negative : Bool) :
      ((readMagnitude negative).map Json.number).Yields fun value => value.nesting = 0 :=
    Reader.Yields.map fun _ _ _ _ => rfl
  unfold readScalar at h
  split at h
  · exact eq_of_readWordAs h ▸ rfl
  · exact eq_of_readWordAs h ▸ rfl
  · exact eq_of_readWordAs h ▸ rfl
  · obtain ⟨inner, hinner⟩ := Reader.carry_eq_ok h
    exact hstring _ value inner hinner
  · obtain ⟨inner, hinner⟩ := Reader.carry_eq_ok h
    exact hnumber true _ value inner hinner
  · split at h
    · exact hnumber false _ value later h
    · cases h

/-- The elements or members read so far are held in reverse. -/
private theorem nestingOfItems_reverse_le {items : List Json} {bound : Nat}
    (h : nestingOfItems items ≤ bound) : nestingOfItems items.reverse ≤ bound :=
  nestingOfItems_le_iff.mpr fun item hitem =>
    nestingOfItems_le_iff.mp h item (List.mem_reverse.mp hitem)

private theorem nestingOfMembers_reverse_le {members : Members} {bound : Nat}
    (h : nestingOfMembers members ≤ bound) : nestingOfMembers members.reverse ≤ bound :=
  nestingOfMembers_le_iff.mpr fun member hmember =>
    nestingOfMembers_le_iff.mp h member (List.mem_reverse.mp hmember)

section

variable {reader : Reader Json} {bound : Nat}
  (h : reader.Yields fun value => value.nesting ≤ bound)

include h

private theorem yields_array :
    ((readItems (fun items _ => reader.map (· :: items)) [] 0).map
      fun items => Json.array items.reverse).Yields fun value => value.nesting ≤ bound + 1 := by
  have hstart : nestingOfItems [] ≤ bound := Nat.zero_le bound
  have hstep (items : List Json) (index : Nat) (hitems : nestingOfItems items ≤ bound) :
      (reader.map (· :: items)).Yields fun items => nestingOfItems items ≤ bound :=
    Reader.Yields.map fun text item rest hread =>
      Nat.max_le.mpr ⟨h text item rest hread, hitems⟩
  refine Reader.Yields.map fun text items rest hread => ?_
  have hitems := yields_readItems hstep hstart 0 text items rest hread
  exact Nat.succ_le_succ (nestingOfItems_reverse_le hitems)

private theorem yields_object :
    ((readMembers (fun members key =>
        (afterColon key reader).map fun value => (key, value) :: members) [] true).map
      fun members => Json.object members.reverse).Yields
        fun value => value.nesting ≤ bound + 1 := by
  have hstart : nestingOfMembers [] ≤ bound := Nat.zero_le bound
  have hstep (members : Members) (key : String) (hmembers : nestingOfMembers members ≤ bound) :
      ((afterColon key reader).map fun value => (key, value) :: members).Yields
        fun members => nestingOfMembers members ≤ bound :=
    Reader.Yields.map fun text value rest hread =>
      Nat.max_le.mpr ⟨yields_afterColon h key text value rest hread, hmembers⟩
  refine Reader.Yields.map fun text members rest hread => ?_
  have hmembers := yields_readMembers hstep hstart true text members rest hread
  exact Nat.succ_le_succ (nestingOfMembers_reverse_le hmembers)

end

private theorem yields_readValue (nesting : Nat) :
    (readValue nesting).Yields fun value => value.nesting ≤ nesting := by
  induction nesting with
  | zero =>
      intro text value rest h
      rw [readValue] at h
      split at h
      · cases h
      · cases h
      · cases h
      · obtain ⟨inner, hinner⟩ := Reader.carry_eq_ok h
        exact (nesting_of_readScalar hinner).le
  | succ nesting ih =>
      intro text value rest h
      rw [readValue] at h
      split at h
      · cases h
      · obtain ⟨inner, hinner⟩ := Reader.carry_eq_ok h
        exact yields_array ih _ value inner hinner
      · obtain ⟨inner, hinner⟩ := Reader.carry_eq_ok h
        exact yields_object ih _ value inner hinner
      · obtain ⟨inner, hinner⟩ := Reader.carry_eq_ok h
        exact (nesting_of_readScalar hinner).le.trans (Nat.zero_le _)

/-! ## Whole texts -/

theorem nesting_le_of_parseWritten {limit : Nat} {text : String} {value : Json}
    (h : parseWritten limit text = .ok value) : value.nesting ≤ limit := by
  rw [parseWritten, readAll] at h
  split at h
  · cases h
  next read rest hread =>
    cases hend : readEnd rest.1 with
    | error fault => simp [hend, Except.map] at h
    | ok done =>
        simp only [hend, Except.map, Except.ok.injEq] at h
        exact yields_readValue limit _ value rest (h ▸ hread)

theorem nesting_le_of_parse {text : String} {value : Json} (h : parse text = .ok value) :
    value.nesting ≤ nestingLimit := by
  rw [parse] at h
  cases hwritten : parseWritten nestingLimit text with
  | error fault => simp [hwritten, Except.map] at h
  | ok written =>
      simp only [hwritten, Except.map, Except.ok.injEq] at h
      subst h
      exact (nesting_merged_le written).trans (nesting_le_of_parseWritten hwritten)

end TreeSyntax.Json
